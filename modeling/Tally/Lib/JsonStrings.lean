import Tally.Lib.Json
import Tally.Lib.Result

/-!
# Reading an array of strings

The reader of a JSON text that has to be an array of strings is a parameter: it reads back what `render`
writes, and a string it reads is shorter than the text it stands in. A reader with all the spellings the
format allows (spaces between the tokens, every escape, pairs of surrogates) has both.
-/

namespace Tally.Lib

def isJsonSpace (c : Char) : Bool := c == ' ' || c == '\n' || c == '\t' || c == '\r'

def skipSpace (text : List Char) : List Char := text.dropWhile isJsonSpace

/-! ## Characters of a string -/

def anyHexDigit (c : Char) : Option Nat :=
  if 65 ≤ c.toNat ∧ c.toNat ≤ 70 then some (c.toNat - 55) else hexDigit c

def scanHex : List Char → Option (Nat × List Char)
  | a :: b :: c :: d :: rest =>
    match anyHexDigit a, anyHexDigit b, anyHexDigit c, anyHexDigit d with
    | some a, some b, some c, some d => some (((a * 16 + b) * 16 + c) * 16 + d, rest)
    | _, _, _, _ => none
  | _ => none

def isLeadingSurrogate (n : Nat) : Bool := 0xD800 ≤ n && n ≤ 0xDBFF

def isTrailingSurrogate (n : Nat) : Bool := 0xDC00 ≤ n && n ≤ 0xDFFF

/-- The second half of a pair of surrogates. -/
def scanTrailing (leading : Nat) : List Char → Option (Char × List Char)
  | '\x5c' :: 'u' :: rest =>
    match scanHex rest with
    | some (n, rest) =>
      if isTrailingSurrogate n then
        some (Char.ofNat (0x10000 + (leading - 0xD800) * 0x400 + (n - 0xDC00)), rest)
      else none
    | none => none
  | _ => none

def scanUnicode (text : List Char) : Option (Char × List Char) :=
  match scanHex text with
  | some (n, rest) =>
    if isTrailingSurrogate n then none
    else if isLeadingSurrogate n then scanTrailing n rest
    else some (Char.ofNat n, rest)
  | none => none

/-- A character of a string, plain or escaped. -/
def scanChar : List Char → Option (Char × List Char)
  | [] => none
  | c :: rest =>
    if c = '\x5c' then
      match rest with
      | [] => none
      | e :: rest =>
        if e = 'u' then scanUnicode rest
        else if e = '/' then some ('/', rest)
        else (unescape e).map fun c => (c, rest)
    else if c.toNat < 32 then none
    else some (c, rest)

/-- The characters of a string up to its quotation mark. -/
def scanString : Nat → List Char → Option (List Char × List Char)
  | 0, _ => none
  | fuel + 1, text =>
    if text.head? = some '\x22' then some ([], text.tail)
    else match scanChar text with
      | some (c, rest) => (scanString fuel rest).map fun (s, rest) => (c :: s, rest)
      | none => none

/-! ## Items of an array -/

def scanItem (text : List Char) : Option (String × List Char) :=
  match skipSpace text with
  | '\x22' :: rest => (scanString rest.length rest).map fun (s, rest) => (String.ofList s, rest)
  | _ => none

/-- The items after the first one. -/
def scanItems : Nat → List Char → Option (List String × List Char)
  | 0, _ => none
  | fuel + 1, text =>
    match skipSpace text with
    | ']' :: rest => some ([], rest)
    | ',' :: rest =>
      match scanItem rest with
      | some (item, rest) => (scanItems fuel rest).map fun (items, rest) => (item :: items, rest)
      | none => none
    | _ => none

def scanArray (text : List Char) : Option (List String × List Char) :=
  match skipSpace text with
  | '[' :: rest =>
    match skipSpace rest with
    | ']' :: rest => some ([], rest)
    | _ =>
      match scanItem rest with
      | some (item, rest) =>
        (scanItems rest.length rest).map fun (items, rest) => (item :: items, rest)
      | none => none
  | _ => none

/-- The strings of an array. -/
def readStrings (text : List Char) : Option (List String) :=
  match scanArray text with
  | some (items, rest) => if (skipSpace rest).isEmpty then some items else none
  | none => none

/-! ## A string is shorter than its text -/

theorem length_skipSpace (text : List Char) : (skipSpace text).length ≤ text.length :=
  (List.dropWhile_suffix _).length_le

theorem scanHex_length {text rest : List Char} {n : Nat} (h : scanHex text = some (n, rest)) :
    rest.length < text.length := by
  unfold scanHex at h
  split at h
  · split at h
    · cases h
      simp only [List.length_cons]
      omega
    · cases h
  · cases h

theorem scanTrailing_length {leading : Nat} {text rest : List Char} {c : Char}
    (h : scanTrailing leading text = some (c, rest)) : rest.length < text.length := by
  unfold scanTrailing at h
  split at h
  · next tail =>
    split at h
    · next n after hhex =>
      split at h
      · rw [Option.some.injEq, Prod.mk.injEq] at h
        have hlen := scanHex_length hhex
        rw [h.2] at hlen
        simp only [List.length_cons]
        omega
      · cases h
    · cases h
  · cases h

theorem scanUnicode_length {text rest : List Char} {c : Char}
    (h : scanUnicode text = some (c, rest)) : rest.length < text.length := by
  unfold scanUnicode at h
  split at h
  · next n after hhex =>
    have hlen := scanHex_length hhex
    split at h
    · cases h
    split at h
    · exact (scanTrailing_length h).trans hlen
    · cases h
      exact hlen
  · cases h

theorem scanChar_length {text rest : List Char} {c : Char} (h : scanChar text = some (c, rest)) :
    rest.length < text.length := by
  unfold scanChar at h
  split at h
  · cases h
  next first tail =>
  split at h
  · split at h
    · cases h
    next e after =>
    simp only [List.length_cons]
    split at h
    · have hlen := scanUnicode_length h
      omega
    split at h
    · cases h
      omega
    · obtain ⟨_, _, hpair⟩ := Option.map_eq_some_iff.mp h
      cases hpair
      omega
  split at h
  · cases h
  · cases h
    exact Nat.lt_succ_self _

theorem scanString_length {fuel : Nat} {text s rest : List Char}
    (h : scanString fuel text = some (s, rest)) : s.length + rest.length < text.length := by
  induction fuel generalizing text s with
  | zero => cases h
  | succ fuel ih =>
    rw [scanString] at h
    split at h
    · next hquote =>
      cases h
      cases text with
      | nil => cases hquote
      | cons _ tail => simp
    · split at h
      · next c after hchar =>
        have hlen := scanChar_length hchar
        obtain ⟨⟨s, tail⟩, hstring, hpair⟩ := Option.map_eq_some_iff.mp h
        cases hpair
        have hrest := ih hstring
        simp only [List.length_cons]
        omega
      · cases h

theorem scanItem_length {text rest : List Char} {item : String}
    (h : scanItem text = some (item, rest)) :
    item.toList.length < text.length ∧ rest.length < text.length := by
  unfold scanItem at h
  split at h
  · next after hskip =>
    obtain ⟨⟨s, tail⟩, hstring, hpair⟩ := Option.map_eq_some_iff.mp h
    cases hpair
    have hlen := scanString_length hstring
    have hle := length_skipSpace text
    rw [hskip, List.length_cons] at hle
    rw [String.toList_ofList]
    omega
  · cases h

theorem scanItems_length {fuel : Nat} {text rest : List Char} {items : List String}
    (h : scanItems fuel text = some (items, rest)) :
    ∀ item ∈ items, item.toList.length < text.length := by
  induction fuel generalizing text items with
  | zero => cases h
  | succ fuel ih =>
    rw [scanItems] at h
    have hle := length_skipSpace text
    split at h
    · cases h
      exact fun _ hmem => nomatch hmem
    · next after hskip =>
      rw [hskip, List.length_cons] at hle
      split at h
      · next item tail hitem =>
        obtain ⟨hlen, hrest⟩ := scanItem_length hitem
        obtain ⟨⟨items, tail⟩, hitems, hpair⟩ := Option.map_eq_some_iff.mp h
        cases hpair
        intro other hmem
        rcases List.mem_cons.mp hmem with rfl | hmem
        · omega
        · have := ih hitems other hmem
          omega
      · cases h
    · cases h

/-- No string of the array is as long as the text. -/
theorem readStrings_length {text : List Char} {items : List String}
    (h : readStrings text = some items) : ∀ item ∈ items, item.toList.length < text.length := by
  unfold readStrings at h
  split at h
  · next read rest harray =>
    split at h
    · cases h
      unfold scanArray at harray
      split at harray
      · next tail hskip =>
        have hle := length_skipSpace text
        rw [hskip, List.length_cons] at hle
        split at harray
        · cases harray
          exact fun _ hmem => nomatch hmem
        · split at harray
          · next item after hitem =>
            obtain ⟨hlen, hrest⟩ := scanItem_length hitem
            obtain ⟨⟨others, end_⟩, hitems, hpair⟩ := Option.map_eq_some_iff.mp harray
            cases hpair
            intro other hmem
            rcases List.mem_cons.mp hmem with rfl | hmem
            · omega
            · have := scanItems_length hitems other hmem
              omega
          · cases harray
      · cases harray
    · cases h
  · cases h

/-! ## What is rendered is read back -/

theorem anyHexDigit_hexChar {n : Nat} (h : n < 16) : anyHexDigit (hexChar n) = some n := by
  revert n
  decide

theorem scanHex_hexChar {n : Nat} (h : n < 32) (rest : List Char) :
    scanHex ('0' :: '0' :: hexChar (n / 16) :: hexChar (n % 16) :: rest) = some (n, rest) := by
  have hzero : anyHexDigit '0' = some 0 := rfl
  have hsum : ((0 * 16 + 0) * 16 + n / 16) * 16 + n % 16 = n := by omega
  simp only [scanHex, hzero, anyHexDigit_hexChar (show n / 16 < 16 by omega),
    anyHexDigit_hexChar (show n % 16 < 16 by omega), hsum]

theorem scanChar_unicode {c : Char} (h : c.toNat < 32) (rest : List Char) :
    scanChar ('\x5c' :: 'u' :: '0' :: '0' :: hexChar (c.toNat / 16) :: hexChar (c.toNat % 16) ::
      rest) = some (c, rest) := by
  have htrailing : isTrailingSurrogate c.toNat = false := by
    simp only [isTrailingSurrogate, Bool.and_eq_false_iff, decide_eq_false_iff_not]
    omega
  have hleading : isLeadingSurrogate c.toNat = false := by
    simp only [isLeadingSurrogate, Bool.and_eq_false_iff, decide_eq_false_iff_not]
    omega
  simp only [scanChar, if_true, scanUnicode, scanHex_hexChar h, htrailing, hleading,
    Bool.false_eq_true, if_false, Char.ofNat_toNat]

/-- `scanChar` undoes `escapeChar`. -/
theorem scanChar_escapeChar (c : Char) (rest : List Char) :
    scanChar (escapeChar c ++ rest) = some (c, rest) := by
  unfold escapeChar
  iterate 7
    split
    · next h =>
      subst h
      rfl
  split
  · next h => exact scanChar_unicode h rest
  · next _ hslash _ _ _ _ _ hlow =>
    rw [List.singleton_append, scanChar.eq_def]
    simp only [if_neg hslash, if_neg hlow]

theorem head_escapeChar (c : Char) (rest : List Char) :
    (escapeChar c ++ rest).head? ≠ some '\x22' := by
  unfold escapeChar
  iterate 8
    split
    · simp
  next hquote _ _ _ _ _ _ _ => simpa using hquote

theorem length_escapeChar_pos (c : Char) : 0 < (escapeChar c).length := by
  unfold escapeChar
  iterate 8
    split
    · simp
  simp

theorem scanString_escaped (s rest : List Char) (fuel : Nat)
    (h : (s.flatMap escapeChar).length < fuel) :
    scanString fuel (s.flatMap escapeChar ++ '\x22' :: rest) = some (s, rest) := by
  induction s generalizing fuel with
  | nil =>
    obtain ⟨fuel, rfl⟩ : ∃ k, fuel = k + 1 := ⟨fuel - 1, by simp at h; omega⟩
    rfl
  | cons c s ih =>
    rw [List.flatMap_cons, List.length_append] at h
    have hpos := length_escapeChar_pos c
    obtain ⟨fuel, rfl⟩ : ∃ k, fuel = k + 1 := ⟨fuel - 1, by omega⟩
    rw [List.flatMap_cons, List.append_assoc, scanString, if_neg (head_escapeChar c _),
      scanChar_escapeChar]
    simp only [ih fuel (by omega), Option.map_some]

theorem scanItem_renderString (s : String) (rest : List Char) :
    scanItem (renderString s ++ rest) = some (s, rest) := by
  have htext : renderString s ++ rest =
      '\x22' :: (s.toList.flatMap escapeChar ++ '\x22' :: rest) := by
    simp [renderString]
  have hskip : ∀ tail, skipSpace ('\x22' :: tail) = '\x22' :: tail := fun _ => rfl
  have hstring := scanString_escaped s.toList rest
    (s.toList.flatMap escapeChar ++ '\x22' :: rest).length (by simp)
  rw [htext, scanItem, hskip]
  simp only [hstring, Option.map_some, String.ofList_toList]

theorem scanItems_renderItems (items : List String) (rest : List Char) (fuel : Nat)
    (h : items.length < fuel) :
    scanItems fuel (renderItems (items.map .string) ++ rest) = some (items, rest) := by
  induction items generalizing fuel with
  | nil =>
    obtain ⟨fuel, rfl⟩ : ∃ k, fuel = k + 1 := ⟨fuel - 1, by simp at h; omega⟩
    rfl
  | cons item items ih =>
    obtain ⟨fuel, rfl⟩ : ∃ k, fuel = k + 1 := ⟨fuel - 1, by simp at h; omega⟩
    have htext : renderItems ((item :: items).map .string) ++ rest =
        ',' :: (renderString item ++ (renderItems (items.map .string) ++ rest)) := by
      simp [renderItems, render]
    have hskip : ∀ tail, skipSpace (',' :: tail) = ',' :: tail := fun _ => rfl
    rw [htext, scanItems, hskip]
    simp only [scanItem_renderString, ih fuel (by simp at h; omega), Option.map_some]

theorem length_le_renderItems (items : List String) :
    items.length < (renderItems (items.map .string)).length := by
  induction items with
  | nil => simp [renderItems]
  | cons item items ih =>
    simp only [List.map_cons, renderItems, List.length_cons, List.length_append]
    omega

/-- The text of an array of strings. -/
def renderStrings (items : List String) : List Char := render (.array (items.map .string))

theorem head_renderStrings (items : List String) : (renderStrings items).head? = some '[' := by
  cases items <;> rfl

theorem readStrings_renderStrings (items : List String) :
    readStrings (renderStrings items) = some items := by
  have hskip : ∀ tail, skipSpace ('[' :: tail) = '[' :: tail := fun _ => rfl
  cases items with
  | nil => rfl
  | cons item items =>
    have hquote : ∃ tail, renderString item ++ renderItems (items.map .string) = '\x22' :: tail :=
      ⟨_, rfl⟩
    obtain ⟨tail, htail⟩ := hquote
    have hfirst : ∀ tail, skipSpace ('\x22' :: tail) = '\x22' :: tail := fun _ => rfl
    have htext : renderStrings (item :: items) =
        '[' :: (renderString item ++ renderItems (items.map .string)) := rfl
    have hitem := scanItem_renderString item (renderItems (items.map .string))
    have hitems := scanItems_renderItems items [] _ (length_le_renderItems items)
    rw [List.append_nil] at hitems
    rw [htail] at htext hitem
    simp only [readStrings, scanArray, htext, hskip, hfirst, hitem, hitems, Option.map_some]
    rfl

/-! ## The reader of the library -/

/-- `serde_json::from_str::<Vec<String>>`. A string has quotation marks around it in the text. -/
class StringsText where
  read : List Char → Except String (List String)
  read_renderStrings : ∀ items, read (renderStrings items) = .ok items
  length_lt : ∀ {text items}, read text = .ok items → ∀ item ∈ items, item.toList.length < text.length

@[reducible] def scanningReader : StringsText where
  read text := orError (readStrings text) "invalid JSON"
  read_renderStrings items := orError_eq_ok.mpr (readStrings_renderStrings items)
  length_lt h := readStrings_length (orError_eq_ok.mp h)

end Tally.Lib
