import Tally.Lib.JsonNumber

/-!
# The grammar of JSON

The texts of a value, with the white space, the spellings of characters and the repeated names that
RFC 8259 lets them have. A member of an object is where it stands in the text; a surrogate of an
escape has to be one of a pair.
-/

namespace Tally.Lib

/-! ## Numbers -/

def IsDigits (text : List Char) : Prop := text ≠ [] ∧ ∀ c ∈ text, c.isDigit = true

def IsInteger (text : List Char) : Prop := text = ['0'] ∨ (IsDigits text ∧ text.head? ≠ some '0')

def IsFraction (text : List Char) : Prop :=
  text = [] ∨ ∃ digits, IsDigits digits ∧ text = '.' :: digits

def IsExponent (text : List Char) : Prop :=
  text = [] ∨ ∃ mark sign digits, (mark = 'e' ∨ mark = 'E') ∧
    (sign = [] ∨ sign = ['+'] ∨ sign = ['-']) ∧ IsDigits digits ∧ text = mark :: (sign ++ digits)

/-- `[ minus ] int [ frac ] [ exp ]` -/
def IsNumber (text : List Char) : Prop :=
  ∃ minus integer fraction exponent, (minus = [] ∨ minus = ['-']) ∧ IsInteger integer ∧
    IsFraction fraction ∧ IsExponent exponent ∧ text = minus ++ (integer ++ (fraction ++ exponent))

theorem IsDigits.numberChars {text : List Char} (h : IsDigits text) : ∀ c ∈ text, isNumberChar c = true :=
  fun c hc => isNumberChar_of_isDigit (h.2 c hc)

theorem IsFraction.numberChars {text : List Char} (h : IsFraction text) :
    ∀ c ∈ text, isNumberChar c = true := by
  rcases h with rfl | ⟨digits, hdigits, rfl⟩
  · exact nofun
  · intro c hc
    rcases List.mem_cons.mp hc with rfl | hc
    · rfl
    · exact hdigits.numberChars c hc

theorem IsExponent.numberChars {text : List Char} (h : IsExponent text) :
    ∀ c ∈ text, isNumberChar c = true := by
  rcases h with rfl | ⟨mark, sign, digits, hmark, hsign, hdigits, rfl⟩
  · exact nofun
  · intro c hc
    rcases List.mem_cons.mp hc with rfl | hc
    · rcases hmark with rfl | rfl <;> rfl
    rcases List.mem_append.mp hc with hc | hc
    · rcases hsign with rfl | rfl | rfl
      · cases hc
      · rw [List.mem_singleton.mp hc]
        rfl
      · rw [List.mem_singleton.mp hc]
        rfl
    · exact hdigits.numberChars c hc

theorem IsInteger.exists_cons {text : List Char} (h : IsInteger text) :
    ∃ first rest, text = first :: rest ∧ first.isDigit = true ∧ ∀ c ∈ rest, isNumberChar c = true := by
  rcases h with rfl | ⟨⟨hne, hdigits⟩, -⟩
  · exact ⟨'0', [], rfl, rfl, nofun⟩
  · obtain ⟨first, rest, rfl⟩ := List.exists_cons_of_ne_nil hne
    exact ⟨first, rest, rfl, hdigits first List.mem_cons_self,
      fun c hc => isNumberChar_of_isDigit (hdigits c (List.mem_cons_of_mem first hc))⟩

theorem IsNumber.exists_cons {text : List Char} (h : IsNumber text) :
    ∃ first rest, text = first :: rest ∧ (first = '-' ∨ first.isDigit = true) ∧
      ∀ c ∈ rest, isNumberChar c = true := by
  obtain ⟨minus, integer, fraction, exponent, hminus, hinteger, hfraction, hexponent, rfl⟩ := h
  obtain ⟨first, digits, rfl, hfirst, hdigits⟩ := hinteger.exists_cons
  have hrest : ∀ c ∈ digits ++ (fraction ++ exponent), isNumberChar c = true := by
    intro c hc
    rcases List.mem_append.mp hc with hc | hc
    · exact hdigits c hc
    rcases List.mem_append.mp hc with hc | hc
    · exact hfraction.numberChars c hc
    · exact hexponent.numberChars c hc
  rcases hminus with rfl | rfl
  · exact ⟨first, _, rfl, .inr hfirst, hrest⟩
  · refine ⟨'-', _, rfl, .inl rfl, ?_⟩
    intro c hc
    rcases List.mem_cons.mp hc with rfl | hc
    · exact isNumberChar_of_isDigit hfirst
    · exact hrest c hc

theorem isNumeric_of_isNumber {text : List Char} (h : IsNumber text) : isNumeric text = true := by
  obtain ⟨first, rest, rfl, hfirst, hrest⟩ := h.exists_cons
  rw [isNumeric, Bool.and_eq_true, Bool.or_eq_true, beq_iff_eq, List.all_eq_true]
  exact ⟨hfirst.symm, hrest⟩

theorem isDigits_takeWhile {first : Char} (h : first.isDigit = true) (rest : List Char) :
    IsDigits (first :: rest.takeWhile Char.isDigit) := by
  refine ⟨List.cons_ne_nil _ _, fun c hc => ?_⟩
  rcases List.mem_cons.mp hc with rfl | hc
  · exact h
  · exact List.mem_takeWhile_imp hc

theorem isExponent_of_isExponentPart {text : List Char} (h : isExponentPart text = true) :
    IsExponent text := by
  cases text with
  | nil => exact .inl rfl
  | cons mark rest =>
    simp only [isExponentPart, Bool.and_eq_true, Bool.or_eq_true, beq_iff_eq, Bool.not_eq_true',
      List.isEmpty_eq_false_iff, List.all_eq_true] at h
    obtain ⟨⟨hmark, hne⟩, hdigits⟩ := h
    cases rest with
    | nil => exact absurd rfl hne
    | cons sign digits =>
      rw [List.head?_cons, List.tail_cons] at hne hdigits
      split at hdigits
      · next hsign =>
        rw [if_pos hsign] at hne
        refine .inr ⟨mark, [sign], digits, hmark, .inr ?_, ⟨hne, hdigits⟩, rfl⟩
        rcases hsign with hsign | hsign <;> cases hsign
        · exact .inl rfl
        · exact .inr rfl
      · exact .inr ⟨mark, [], sign :: digits, hmark, .inl rfl, ⟨List.cons_ne_nil _ _, hdigits⟩, rfl⟩

theorem exists_fraction {text : List Char} (h : isFractionPart text = true) :
    ∃ fraction exponent, IsFraction fraction ∧ IsExponent exponent ∧ text = fraction ++ exponent := by
  unfold isFractionPart at h
  split at h
  · next hpoint =>
    rw [Bool.and_eq_true] at h
    obtain ⟨hfirst, hexponent⟩ := h
    cases text with
    | nil => cases hpoint
    | cons point digits =>
      cases hpoint
      rw [List.tail_cons] at hfirst hexponent
      refine ⟨'.' :: digits.takeWhile Char.isDigit, digits.dropWhile Char.isDigit,
        .inr ⟨_, ?_, rfl⟩, isExponent_of_isExponentPart hexponent, ?_⟩
      · cases digits with
        | nil => cases hfirst
        | cons first rest =>
          have hdigit : first.isDigit = true := hfirst
          rw [List.takeWhile_cons, if_pos hdigit]
          exact isDigits_takeWhile hdigit rest
      · rw [List.cons_append, List.takeWhile_append_dropWhile]
  · exact ⟨[], text, .inl rfl, isExponent_of_isExponentPart h, rfl⟩

theorem exists_integer {text : List Char} (h : isUnsigned text = true) :
    ∃ integer fraction exponent, IsInteger integer ∧ IsFraction fraction ∧ IsExponent exponent ∧
      text = integer ++ (fraction ++ exponent) := by
  cases text with
  | nil => cases h
  | cons first rest =>
    rw [isUnsigned] at h
    split at h
    · next hzero =>
      obtain ⟨fraction, exponent, hfraction, hexponent, hrest⟩ := exists_fraction h
      exact ⟨['0'], fraction, exponent, .inl rfl, hfraction, hexponent, by rw [hzero, hrest]; rfl⟩
    · next hzero =>
      rw [Bool.and_eq_true] at h
      obtain ⟨hfirst, hrest⟩ := h
      obtain ⟨fraction, exponent, hfraction, hexponent, hdrop⟩ := exists_fraction hrest
      refine ⟨first :: rest.takeWhile Char.isDigit, fraction, exponent,
        .inr ⟨isDigits_takeWhile hfirst rest, fun h => hzero (Option.some.inj h)⟩, hfraction, hexponent, ?_⟩
      rw [← hdrop, List.cons_append, List.takeWhile_append_dropWhile]

theorem isNumber_of_isJsonNumber {text : List Char} (h : isJsonNumber text = true) : IsNumber text := by
  unfold isJsonNumber at h
  split at h
  · next hsign =>
    cases text with
    | nil => cases hsign
    | cons sign rest =>
      cases hsign
      obtain ⟨integer, fraction, exponent, hinteger, hfraction, hexponent, hrest⟩ := exists_integer h
      rw [List.tail_cons] at hrest
      exact ⟨['-'], integer, fraction, exponent, .inr rfl, hinteger, hfraction, hexponent, by rw [hrest]; rfl⟩
  · obtain ⟨integer, fraction, exponent, hinteger, hfraction, hexponent, htext⟩ := exists_integer h
    exact ⟨[], integer, fraction, exponent, .inl rfl, hinteger, hfraction, hexponent, htext⟩

/-! ## Strings -/

def Blank (text : List Char) : Prop := ∀ c ∈ text, isJsonSpace c = true

/-- The characters with an escape of two characters. -/
def shortEscape (c : Char) : Option Char := if c = '/' then some '/' else unescape c

/-- Four hexadecimal digits. -/
def IsQuad (text : List Char) (n : Nat) : Prop :=
  text.length = 4 ∧ text.foldlM (fun value c => (anyHexDigit c).map (value * 16 + ·)) 0 = some n

/-- The ways to write a character in a string. -/
inductive Spells : List Char → Char → Prop
  | plain {c : Char} (hcontrol : 0x20 ≤ c.toNat) (hquote : c ≠ '\x22') (hescape : c ≠ '\x5c') :
    Spells [c] c
  | short {e c : Char} (h : shortEscape e = some c) : Spells ['\x5c', e] c
  | unicode {quad : List Char} {n : Nat} (h : IsQuad quad n) (hleading : isLeadingSurrogate n = false)
      (htrailing : isTrailingSurrogate n = false) :
    Spells ('\x5c' :: 'u' :: quad) (Char.ofNat n)
  | pair {high low : List Char} {n m : Nat} (hhigh : IsQuad high n) (hleading : isLeadingSurrogate n = true)
      (hlow : IsQuad low m) (htrailing : isTrailingSurrogate m = true) :
    Spells ('\x5c' :: 'u' :: (high ++ '\x5c' :: 'u' :: low))
      (Char.ofNat (0x10000 + (n - 0xD800) * 2 ^ 10 + (m - 0xDC00)))

inductive SpellsAll : List Char → List Char → Prop
  | nil : SpellsAll [] []
  | cons {piece text : List Char} {c : Char} {chars : List Char} (hpiece : Spells piece c)
      (htext : SpellsAll text chars) : SpellsAll (piece ++ text) (c :: chars)

def IsString (text : List Char) (s : String) : Prop :=
  ∃ body, SpellsAll body s.toList ∧ text = '\x22' :: (body ++ ['\x22'])

/-! ## Values -/

/-- The name of a member, with the white space around it. -/
def IsName (text : List Char) (name : String) : Prop :=
  ∃ before body after, Blank before ∧ IsString body name ∧ Blank after ∧ text = before ++ (body ++ after)

mutual

inductive Denotes : List Char → Value → Prop
  | litNull : Denotes "null".toList .null
  | litTrue : Denotes "true".toList (.bool true)
  | litFalse : Denotes "false".toList (.bool false)
  | number {n : Number} (h : IsNumber n.chars) : Denotes n.chars (.number n)
  | string {text : List Char} {s : String} (h : IsString text s) : Denotes text (.string s)
  | emptyArray {space : List Char} (h : Blank space) : Denotes ('[' :: (space ++ [']'])) (.array [])
  | array {text : List Char} {items : List Value} (h : DenotesItems text items) :
    Denotes ('[' :: (text ++ [']'])) (.array items)
  | emptyObject {space : List Char} (h : Blank space) :
    Denotes ('\x7b' :: (space ++ ['\x7d'])) (.object [])
  | object {text : List Char} {fields : Fields} (h : DenotesFields text fields) :
    Denotes ('\x7b' :: (text ++ ['\x7d'])) (.object fields)

/-- One item or more, with commas between them. -/
inductive DenotesItems : List Char → List Value → Prop
  | last {before text after : List Char} {item : Value} (hbefore : Blank before) (h : Denotes text item)
      (hafter : Blank after) : DenotesItems (before ++ (text ++ after)) [item]
  | cons {before text after rest : List Char} {item : Value} {items : List Value}
      (hbefore : Blank before) (h : Denotes text item) (hafter : Blank after)
      (hrest : DenotesItems rest items) :
    DenotesItems (before ++ (text ++ (after ++ ',' :: rest))) (item :: items)

/-- One member or more. -/
inductive DenotesFields : List Char → Fields → Prop
  | last {name before text after : List Char} {key : String} {value : Value} (hname : IsName name key)
      (hbefore : Blank before) (h : Denotes text value) (hafter : Blank after) :
    DenotesFields (name ++ ':' :: (before ++ (text ++ after))) [(key, value)]
  | cons {name before text after rest : List Char} {key : String} {value : Value} {fields : Fields}
      (hname : IsName name key) (hbefore : Blank before) (h : Denotes text value) (hafter : Blank after)
      (hrest : DenotesFields rest fields) :
    DenotesFields (name ++ ':' :: (before ++ (text ++ (after ++ ',' :: rest)))) ((key, value) :: fields)

end

/-- The characters that a value begins with. -/
def startsValue (c : Char) : Bool :=
  c == 'n' || c == 't' || c == 'f' || c == '\x22' || c == '[' || c == '\x7b' || c == '-' || c.isDigit

theorem Denotes.exists_cons {text : List Char} {value : Value} (h : Denotes text value) :
    ∃ c rest, text = c :: rest ∧ startsValue c = true := by
  cases h with
  | litNull | litTrue | litFalse => exact ⟨_, _, rfl, rfl⟩
  | number h =>
    obtain ⟨first, rest, heq, hfirst, -⟩ := h.exists_cons
    refine ⟨first, rest, heq, ?_⟩
    rcases hfirst with rfl | hdigit
    · rfl
    · rw [startsValue, hdigit, Bool.or_true]
  | string h =>
    obtain ⟨body, -, rfl⟩ := h
    exact ⟨_, _, rfl, rfl⟩
  | emptyArray | array | emptyObject | object => exact ⟨_, _, rfl, rfl⟩

theorem blank_nil : Blank [] := nofun

theorem Blank.append {a b : List Char} (ha : Blank a) (hb : Blank b) : Blank (a ++ b) := fun c hc =>
  (List.mem_append.mp hc).elim (ha c) (hb c)

/-- White space before the items belongs to them. -/
theorem DenotesItems.append_blank {text space : List Char} {items : List Value}
    (h : DenotesItems text items) (hspace : Blank space) : DenotesItems (space ++ text) items := by
  cases h with
  | last hbefore h hafter =>
    rw [← List.append_assoc]
    exact .last (hspace.append hbefore) h hafter
  | cons hbefore h hafter hrest =>
    rw [← List.append_assoc]
    exact .cons (hspace.append hbefore) h hafter hrest

/-- The items without the white space before them. -/
theorem DenotesItems.strip {text : List Char} {items : List Value} (h : DenotesItems text items) :
    ∃ space c rest, text = space ++ c :: rest ∧ Blank space ∧ startsValue c = true ∧
      DenotesItems (c :: rest) items := by
  cases h with
  | @last before piece after item hbefore h hafter =>
    obtain ⟨c, tail, rfl, hc⟩ := h.exists_cons
    exact ⟨before, c, tail ++ after, rfl, hbefore, hc, DenotesItems.last blank_nil h hafter⟩
  | @cons before piece after rest item items hbefore h hafter hrest =>
    obtain ⟨c, tail, rfl, hc⟩ := h.exists_cons
    exact ⟨before, c, tail ++ (after ++ ',' :: rest), rfl, hbefore, hc,
      DenotesItems.cons blank_nil h hafter hrest⟩

theorem IsName.strip {text : List Char} {name : String} (h : IsName text name) :
    ∃ space rest, text = space ++ '\x22' :: rest ∧ Blank space ∧ IsName ('\x22' :: rest) name := by
  obtain ⟨before, body, after, hbefore, ⟨chars, hchars, rfl⟩, hafter, rfl⟩ := h
  exact ⟨before, _, rfl, hbefore, [], _, after, blank_nil, ⟨chars, hchars, rfl⟩, hafter, rfl⟩

theorem IsName.append_blank {text space : List Char} {name : String} (h : IsName text name)
    (hspace : Blank space) : IsName (space ++ text) name := by
  obtain ⟨before, body, after, hbefore, hbody, hafter, rfl⟩ := h
  rw [← List.append_assoc]
  exact ⟨_, body, after, hspace.append hbefore, hbody, hafter, rfl⟩

theorem DenotesFields.append_blank {text space : List Char} {fields : Fields}
    (h : DenotesFields text fields) (hspace : Blank space) : DenotesFields (space ++ text) fields := by
  cases h with
  | last hname hbefore h hafter =>
    rw [← List.append_assoc]
    exact .last (hname.append_blank hspace) hbefore h hafter
  | cons hname hbefore h hafter hrest =>
    rw [← List.append_assoc]
    exact .cons (hname.append_blank hspace) hbefore h hafter hrest

theorem DenotesFields.strip {text : List Char} {fields : Fields} (h : DenotesFields text fields) :
    ∃ space rest, text = space ++ '\x22' :: rest ∧ Blank space ∧
      DenotesFields ('\x22' :: rest) fields := by
  cases h with
  | @last name before piece after key value hname hbefore h hafter =>
    obtain ⟨space, rest, rfl, hspace, hname⟩ := hname.strip
    refine ⟨space, rest ++ ':' :: (before ++ (piece ++ after)), ?_, hspace,
      DenotesFields.last hname hbefore h hafter⟩
    rw [List.append_assoc]
    rfl
  | @cons name before piece after more key value fields hname hbefore h hafter hrest =>
    obtain ⟨space, rest, rfl, hspace, hname⟩ := hname.strip
    refine ⟨space, rest ++ ':' :: (before ++ (piece ++ (after ++ ',' :: more))), ?_, hspace,
      DenotesFields.cons hname hbefore h hafter hrest⟩
    rw [List.append_assoc]
    rfl

/-- A JSON text, and the value in it. -/
def IsJsonText (text : List Char) (value : Value) : Prop :=
  ∃ before body after, Blank before ∧ Denotes body value ∧ Blank after ∧
    text = before ++ (body ++ after)

/-! ## Compact text -/

theorem isQuad_control {n : Nat} (h : n < 32) :
    IsQuad ['0', '0', hexChar (n / 16), hexChar (n % 16)] n := by
  have hall : ∀ n < 32, ['0', '0', hexChar (n / 16), hexChar (n % 16)].foldlM
      (fun value c => (anyHexDigit c).map (value * 16 + ·)) 0 = some n := by decide
  exact ⟨rfl, hall n h⟩

theorem spells_escapeChar (c : Char) : Spells (escapeChar c) c := by
  unfold escapeChar
  split
  · next h =>
    subst h
    exact .short (e := '\x22') rfl
  split
  · next h =>
    subst h
    exact .short (e := '\x5c') rfl
  split
  · next h => exact .short (h ▸ rfl)
  split
  · next h => exact .short (h ▸ rfl)
  split
  · next h => exact .short (h ▸ rfl)
  split
  · next h => exact .short (h ▸ rfl)
  split
  · next h => exact .short (h ▸ rfl)
  split
  · next h =>
    have hsurrogates : ∀ n < 32, isLeadingSurrogate n = false ∧ isTrailingSurrogate n = false := by decide
    obtain ⟨hleading, htrailing⟩ := hsurrogates _ h
    have hspells := Spells.unicode (isQuad_control h) hleading htrailing
    rwa [Char.ofNat_toNat] at hspells
  · next hquote hescape _ _ _ _ _ hcontrol => exact .plain (Nat.le_of_not_lt hcontrol) hquote hescape

theorem spellsAll_escaped (chars : List Char) : SpellsAll (chars.flatMap escapeChar) chars := by
  induction chars with
  | nil => exact .nil
  | cons c chars ih => exact .cons (spells_escapeChar c) ih

theorem isString_renderString (s : String) : IsString (renderString s) s :=
  ⟨_, spellsAll_escaped s.toList, rfl⟩

mutual

/-- The numbers in the value are numbers of the grammar. -/
def Lexical : Value → Prop
  | .null | .bool _ | .string _ => True
  | .number n => isJsonNumber n.chars = true
  | .array items => LexicalItems items
  | .object fields => LexicalFields fields

def LexicalItems : List Value → Prop
  | [] => True
  | item :: items => Lexical item ∧ LexicalItems items

def LexicalFields : List (String × Value) → Prop
  | [] => True
  | (_, value) :: fields => Lexical value ∧ LexicalFields fields

end

mutual

theorem denotes_render (value : Value) (h : Lexical value) : Denotes (render value) value := by
  match value with
  | .null => rw [render]; exact .litNull
  | .bool true => rw [render]; exact .litTrue
  | .bool false => rw [render]; exact .litFalse
  | .number n =>
    rw [Lexical] at h
    rw [render]
    exact .number (isNumber_of_isJsonNumber h)
  | .string s => rw [render]; exact .string (isString_renderString s)
  | .array [] => rw [render]; exact .emptyArray blank_nil
  | .object [] => rw [render]; exact .emptyObject blank_nil
  | .array (item :: items) =>
    rw [Lexical, LexicalItems] at h
    obtain ⟨text, htext, hitems⟩ := denotesItems_render items h.2 (denotes_render item h.1)
    rw [render, htext]
    exact .array hitems
  | .object ((key, value) :: fields) =>
    rw [Lexical, LexicalFields] at h
    obtain ⟨text, htext, hfields⟩ := denotesFields_render fields h.2 key (denotes_render value h.1)
    rw [render, htext]
    exact .object hfields

/-- An item with the items after it, up to the bracket that closes them. -/
theorem denotesItems_render (items : List Value) (h : LexicalItems items) {first : List Char}
    {item : Value} (hitem : Denotes first item) :
    ∃ text, first ++ renderItems items = text ++ [']'] ∧ DenotesItems text (item :: items) := by
  match items with
  | [] =>
    refine ⟨first, by rw [renderItems], ?_⟩
    simpa using DenotesItems.last blank_nil hitem blank_nil
  | next :: items =>
    rw [LexicalItems] at h
    obtain ⟨text, htext, hrest⟩ := denotesItems_render items h.2 (denotes_render next h.1)
    refine ⟨first ++ ',' :: text, by rw [renderItems, htext]; simp, ?_⟩
    exact DenotesItems.cons blank_nil hitem blank_nil hrest

/-- A member with the members after it, up to the brace that closes them. -/
theorem denotesFields_render (fields : List (String × Value)) (h : LexicalFields fields) (key : String)
    {first : List Char} {value : Value} (hvalue : Denotes first value) :
    ∃ text, renderString key ++ ':' :: (first ++ renderFields fields) = text ++ ['\x7d'] ∧
      DenotesFields text ((key, value) :: fields) := by
  have hname : IsName (renderString key) key :=
    ⟨[], renderString key, [], blank_nil, isString_renderString key, blank_nil, by simp⟩
  match fields with
  | [] =>
    refine ⟨renderString key ++ ':' :: first, by rw [renderFields]; simp, ?_⟩
    simpa using DenotesFields.last hname blank_nil hvalue blank_nil
  | (name, next) :: fields =>
    rw [LexicalFields] at h
    obtain ⟨text, htext, hrest⟩ := denotesFields_render fields h.2 name (denotes_render next h.1)
    refine ⟨renderString key ++ ':' :: (first ++ ',' :: text), by rw [renderFields, htext]; simp, ?_⟩
    exact DenotesFields.cons hname blank_nil hvalue blank_nil hrest

end

/-- Compact text is a JSON text of its value. -/
theorem isJsonText_render {value : Value} (h : Lexical value) : IsJsonText (render value) value :=
  ⟨[], render value, [], blank_nil, denotes_render value h, blank_nil, by simp⟩

end Tally.Lib
