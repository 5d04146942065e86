import Mathlib.Algebra.GroupWithZero.Nat
import Mathlib.Data.List.Lex
import Mathlib.Data.Fin.Basic
import Mathlib.Order.Fin.Basic
import Mathlib.Data.List.Basic
import Mathlib.Data.String.Basic

/-!
# UUIDs and their text

The program takes its UUIDs from a library. What it relies on is `UuidText`: a UUID is rendered to
one text, the canonical one, and parsed from several. `Nibbles` is a concrete instance, with the
spellings that the library documents: 32 hex digits of either case, plain, hyphenated, in braces or
as a URN.
-/

namespace Tally

class UuidText (Uuid : Type) where
  parseStr : String → Option Uuid
  render : Uuid → String
  parseStr_render : ∀ uuid, parseStr (render uuid) = some uuid

namespace UuidText

variable {Uuid : Type} [UuidText Uuid]

theorem render_inj {a b : Uuid} : render a = render b ↔ a = b := by
  refine ⟨fun h => ?_, fun h => h ▸ rfl⟩
  have hparse := parseStr_render a
  rw [h, parseStr_render] at hparse
  exact (Option.some.inj hparse).symm

end UuidText

/-- The 32 hex digits of a UUID. -/
def Nibbles : Type := { digits : List (Fin 16) // digits.length = 32 }

namespace Nibbles

instance : LinearOrder Nibbles := inferInstanceAs (LinearOrder { digits : List (Fin 16) // digits.length = 32 })

instance neZero_sixteen : NeZero (16 : Nat) := ⟨by decide⟩

def hexDigit (n : Fin 16) : Char :=
  if n.val < 10 then Char.ofNat (48 + n.val) else Char.ofNat (87 + n.val)

/-- `char::to_digit(16)`. -/
def hexValue (c : Char) : Option (Fin 16) :=
  let n := c.toNat
  if 48 ≤ n ∧ n ≤ 57 then some (Fin.ofNat 16 (n - 48))
  else if 97 ≤ n ∧ n ≤ 102 then some (Fin.ofNat 16 (n - 87))
  else if 65 ≤ n ∧ n ≤ 70 then some (Fin.ofNat 16 (n - 55))
  else none

theorem hexValue_hexDigit (n : Fin 16) : hexValue (hexDigit n) = some n := by
  revert n
  decide

def ofChars (chars : List Char) : Option Nibbles :=
  match chars.mapM hexValue with
  | none => none
  | some digits => if h : digits.length = 32 then some ⟨digits, h⟩ else none

/-- The five groups of the hyphenated form. -/
def ofHyphenated (chars : List Char) : Option Nibbles :=
  match chars.splitAt 8 with
  | (a, '-' :: rest) =>
    match rest.splitAt 4 with
    | (b, '-' :: rest) =>
      match rest.splitAt 4 with
      | (c, '-' :: rest) =>
        match rest.splitAt 4 with
        | (d, '-' :: e) => ofChars (a ++ b ++ c ++ d ++ e)
        | _ => none
      | _ => none
    | _ => none
  | _ => none

def parseStr (text : String) : Option Nibbles :=
  let chars := text.toList
  if chars.length = 32 then ofChars chars
  else if chars.length = 36 then ofHyphenated chars
  else if chars.length = 38 ∧ chars.head? = some '\x7b' ∧ chars.getLast? = some '\x7d' then
    ofHyphenated (chars.drop 1).dropLast
  else if chars.length = 45 ∧ "urn:uuid:".toList.isPrefixOf chars then
    ofHyphenated (chars.drop 9)
  else none

def render (uuid : Nibbles) : String :=
  let chars := uuid.1.map hexDigit
  String.ofList (chars.take 8 ++ '-' :: ((chars.drop 8).take 4 ++ '-' :: ((chars.drop 12).take 4 ++
    '-' :: ((chars.drop 16).take 4 ++ '-' :: chars.drop 20))))

theorem mapM_hexValue (digits : List (Fin 16)) : (digits.map hexDigit).mapM hexValue = some digits := by
  induction digits with
  | nil => rfl
  | cons digit rest ih =>
    rw [List.map_cons, List.mapM_cons, hexValue_hexDigit, ih]
    rfl

theorem ofChars_map (uuid : Nibbles) : ofChars (uuid.1.map hexDigit) = some uuid := by
  unfold ofChars
  rw [mapM_hexValue]
  exact dif_pos uuid.2

theorem splitAt_append {n : Nat} {group rest : List Char} (h : group.length = n) :
    (group ++ rest).splitAt n = (group, rest) := by
  rw [List.splitAt_eq, ← h, List.take_left, List.drop_left]

/-- Five groups that are joined by hyphens are read back. -/
theorem ofHyphenated_groups {a b c d e : List Char} (ha : a.length = 8) (hb : b.length = 4)
    (hc : c.length = 4) (hd : d.length = 4) :
    ofHyphenated (a ++ '-' :: (b ++ '-' :: (c ++ '-' :: (d ++ '-' :: e)))) =
      ofChars (a ++ b ++ c ++ d ++ e) := by
  simp only [ofHyphenated, splitAt_append ha, splitAt_append hb, splitAt_append hc,
    splitAt_append hd]

theorem parseStr_render (uuid : Nibbles) : parseStr (render uuid) = some uuid := by
  have hlength : (uuid.1.map hexDigit).length = 32 := by rw [List.length_map, uuid.2]
  rw [← ofChars_map uuid]
  unfold render
  generalize uuid.1.map hexDigit = chars at hlength
  have hgroups : chars.take 8 ++ (chars.drop 8).take 4 ++ (chars.drop 12).take 4 ++
      (chars.drop 16).take 4 ++ chars.drop 20 = chars := by
    rw [← List.take_add, ← List.take_add, ← List.take_add, List.take_append_drop]
  have ha : (chars.take 8).length = 8 := by rw [List.length_take]; omega
  have hb : ((chars.drop 8).take 4).length = 4 := by rw [List.length_take, List.length_drop]; omega
  have hc : ((chars.drop 12).take 4).length = 4 := by rw [List.length_take, List.length_drop]; omega
  have hd : ((chars.drop 16).take 4).length = 4 := by rw [List.length_take, List.length_drop]; omega
  have he : (chars.drop 20).length = 12 := by rw [List.length_drop]; omega
  have htotal : (chars.take 8 ++ '-' :: ((chars.drop 8).take 4 ++ '-' :: ((chars.drop 12).take 4 ++
      '-' :: ((chars.drop 16).take 4 ++ '-' :: chars.drop 20)))).length = 36 := by
    simp only [List.length_append, List.length_cons, ha, hb, hc, hd, he]
  unfold parseStr
  rw [String.toList_ofList]
  dsimp only
  rw [if_neg (by rw [htotal]; decide), if_pos htotal, ofHyphenated_groups ha hb hc hd, hgroups]

instance : UuidText Nibbles := ⟨parseStr, render, parseStr_render⟩

end Nibbles

end Tally
