import Tally.Lib.Lines

/-!
# JSON values and their compact text

Values as a library with ordered objects and unlimited numbers keeps them: a number is its lexeme, an
object the list of its members. `render` is the compact text. `read` takes compact text apart again;
that it finds the value and the rest (`readValue_render`) shows that values have different texts and
that the text of an object is no proper beginning of another one.
-/

namespace Tally.Lib

/-! ## Values -/

def isNumberChar (c : Char) : Bool :=
  c.isDigit || c == '-' || c == '+' || c == '.' || c == 'e' || c == 'E'

/-- What tells the lexeme of a number from other text. -/
def isNumeric : List Char → Bool
  | [] => false
  | c :: rest => (c.isDigit || c == '-') && rest.all isNumberChar

structure Number where
  chars : List Char
  numeric : isNumeric chars = true
  deriving DecidableEq

inductive Value
  | null
  | bool (b : Bool)
  | number (n : Number)
  | string (s : String)
  | array (items : List Value)
  | object (fields : List (String × Value))

/-- The members of an object, in order. -/
abbrev Fields := List (String × Value)

/-! ## Members -/

def Fields.get? (fields : Fields) (key : String) : Option Value :=
  match fields with
  | [] => none
  | (k, value) :: rest => if k = key then some value else Fields.get? rest key

/-- A member keeps its place when it is set again. -/
def Fields.insert (fields : Fields) (key : String) (value : Value) : Fields :=
  match fields with
  | [] => [(key, value)]
  | (k, old) :: rest => if k = key then (k, value) :: rest else (k, old) :: Fields.insert rest key value

namespace Fields

variable {fields : Fields} {key : String}

theorem insert_insert (fields : Fields) (key : String) (a b : Value) :
    (fields.insert key a).insert key b = fields.insert key b := by
  induction fields with
  | nil => simp [insert]
  | cons field rest ih =>
    obtain ⟨k, old⟩ := field
    by_cases hk : k = key
    · simp [insert, hk]
    · simpa [insert, hk] using ih

theorem insert_eq_self {value : Value} (h : fields.get? key = some value) :
    fields.insert key value = fields := by
  induction fields with
  | nil => cases h
  | cons field rest ih =>
    obtain ⟨k, old⟩ := field
    by_cases hk : k = key
    · simp only [get?, hk, if_true, Option.some.injEq] at h
      simp [insert, hk, h]
    · simp only [get?, hk, if_false] at h
      simp [insert, hk, ih h]

theorem get?_insert_self (fields : Fields) (key : String) (value : Value) :
    (fields.insert key value).get? key = some value := by
  induction fields with
  | nil => simp [insert, get?]
  | cons field rest ih =>
    obtain ⟨k, old⟩ := field
    by_cases hk : k = key
    · simp [insert, get?, hk]
    · simpa [insert, get?, hk] using ih

theorem get?_insert_of_ne {other : String} (h : other ≠ key) (fields : Fields) (value : Value) :
    (fields.insert key value).get? other = fields.get? other := by
  induction fields with
  | nil => simp [insert, get?, Ne.symm h]
  | cons field rest ih =>
    obtain ⟨k, old⟩ := field
    by_cases hk : k = key
    · subst hk
      simp [insert, get?, Ne.symm h]
    · simp only [insert, hk, if_false, get?, ih]

theorem get?_append_of_not_mem {a b : Fields} (h : key ∉ a.map Prod.fst) :
    get? (a ++ b) key = get? b key := by
  induction a with
  | nil => rfl
  | cons field a ih =>
    obtain ⟨k, v⟩ := field
    rw [List.map_cons, List.mem_cons, not_or] at h
    rw [List.cons_append, get?, if_neg (Ne.symm h.1)]
    exact ih h.2

end Fields

/-! ## Compact text -/

def hexChar (n : Nat) : Char := if n < 10 then Char.ofNat (48 + n) else Char.ofNat (87 + n)

def escapeChar (c : Char) : List Char :=
  if c = '\x22' then ['\x5c', '\x22']
  else if c = '\x5c' then ['\x5c', '\x5c']
  else if c = '\x08' then ['\x5c', 'b']
  else if c = '\t' then ['\x5c', 't']
  else if c = '\n' then ['\x5c', 'n']
  else if c = '\x0c' then ['\x5c', 'f']
  else if c = '\r' then ['\x5c', 'r']
  else if c.toNat < 32 then ['\x5c', 'u', '0', '0', hexChar (c.toNat / 16), hexChar (c.toNat % 16)]
  else [c]

def renderString (s : String) : List Char := '\x22' :: (s.toList.flatMap escapeChar ++ ['\x22'])

mutual

def render : Value → List Char
  | .null => ['n', 'u', 'l', 'l']
  | .bool true => ['t', 'r', 'u', 'e']
  | .bool false => ['f', 'a', 'l', 's', 'e']
  | .number n => n.chars
  | .string s => renderString s
  | .array [] => ['[', ']']
  | .array (item :: items) => '[' :: (render item ++ renderItems items)
  | .object [] => ['\x7b', '\x7d']
  | .object ((key, value) :: fields) =>
    '\x7b' :: (renderString key ++ ':' :: (render value ++ renderFields fields))

def renderItems : List Value → List Char
  | [] => [']']
  | item :: items => ',' :: (render item ++ renderItems items)

def renderFields : List (String × Value) → List Char
  | [] => ['\x7d']
  | (key, value) :: fields =>
    ',' :: (renderString key ++ ':' :: (render value ++ renderFields fields))

end

/-! ## Reading -/

def hexDigit (c : Char) : Option Nat :=
  if c.isDigit then some (c.toNat - 48)
  else if 97 ≤ c.toNat ∧ c.toNat ≤ 102 then some (c.toNat - 87)
  else none

def unescape : Char → Option Char
  | '\x22' => some '\x22'
  | '\x5c' => some '\x5c'
  | 'b' => some '\x08'
  | 't' => some '\t'
  | 'n' => some '\n'
  | 'f' => some '\x0c'
  | 'r' => some '\r'
  | _ => none

/-- The characters of a string up to its quotation mark. -/
def readString : List Char → Option (List Char × List Char)
  | [] => none
  | c :: rest =>
    if c = '\x22' then some ([], rest)
    else if c = '\x5c' then
      match rest with
      | [] => none
      | e :: rest =>
        if e = 'u' then
          match rest with
          | '0' :: '0' :: a :: b :: rest =>
            match hexDigit a, hexDigit b, readString rest with
            | some high, some low, some (s, rest) => some (Char.ofNat (16 * high + low) :: s, rest)
            | _, _, _ => none
          | _ => none
        else
          match unescape e, readString rest with
          | some c, some (s, rest) => some (c :: s, rest)
          | _, _ => none
    else (readString rest).map fun (s, rest) => (c :: s, rest)

def readNumber (text : List Char) : Option (Value × List Char) :=
  if h : isNumeric (text.takeWhile isNumberChar) then
    some (.number ⟨text.takeWhile isNumberChar, h⟩, text.dropWhile isNumberChar)
  else none

def readWord (word : List Char) (value : Value) (text : List Char) : Option (Value × List Char) :=
  if word.isPrefixOf text then some (value, text.drop word.length) else none

mutual

def readValue : Nat → List Char → Option (Value × List Char)
  | 0, _ => none
  | _ + 1, [] => none
  | fuel + 1, c :: rest =>
    if c = '\x22' then (readString rest).map fun (s, rest) => (.string (String.ofList s), rest)
    else if c = '[' then
      if rest.head? = some ']' then some (.array [], rest.tail)
      else match readValue fuel rest with
        | none => none
        | some (item, rest) =>
          (readItems fuel rest).map fun (items, rest) => (.array (item :: items), rest)
    else if c = '\x7b' then
      if rest.head? = some '\x7d' then some (.object [], rest.tail)
      else (readField fuel rest).map fun (fields, rest) => (.object fields, rest)
    else if c = 'n' then readWord ['u', 'l', 'l'] .null rest
    else if c = 't' then readWord ['r', 'u', 'e'] (.bool true) rest
    else if c = 'f' then readWord ['a', 'l', 's', 'e'] (.bool false) rest
    else readNumber (c :: rest)

def readItems : Nat → List Char → Option (List Value × List Char)
  | 0, _ => none
  | _ + 1, [] => none
  | fuel + 1, c :: rest =>
    if c = ']' then some ([], rest)
    else if c = ',' then
      match readValue fuel rest with
      | none => none
      | some (item, rest) => (readItems fuel rest).map fun (items, rest) => (item :: items, rest)
    else none

/-- A member and the members after it. -/
def readField : Nat → List Char → Option (Fields × List Char)
  | 0, _ => none
  | fuel + 1, text =>
    match readString text.tail with
    | some (key, ':' :: rest) =>
      match readValue fuel rest with
      | none => none
      | some (value, rest) =>
        (readFields fuel rest).map fun (fields, rest) =>
          ((String.ofList key, value) :: fields, rest)
    | _ => none

def readFields : Nat → List Char → Option (Fields × List Char)
  | 0, _ => none
  | _ + 1, [] => none
  | fuel + 1, c :: rest =>
    if c = '\x7d' then some ([], rest)
    else if c = ',' then readField fuel rest
    else none

end

/-! ## What is rendered is read back -/

theorem hexDigit_hexChar {n : Nat} (h : n < 16) : hexDigit (hexChar n) = some n := by
  revert n
  decide

theorem readString_escape {e c : Char} (he : e ≠ 'u') (h : unescape e = some c) (rest : List Char) :
    readString ('\x5c' :: e :: rest) = (readString rest).map fun (s, rest) => (c :: s, rest) := by
  rw [readString.eq_def]
  simp only [Char.reduceEq, if_false, if_true, if_neg he, h]
  cases readString rest <;> rfl

theorem readString_plain {c : Char} (hquote : c ≠ '\x22') (hslash : c ≠ '\x5c') (rest : List Char) :
    readString (c :: rest) = (readString rest).map fun (s, rest) => (c :: s, rest) := by
  rw [readString.eq_def]
  simp only [if_neg hquote, if_neg hslash]

theorem readString_unicode {n : Nat} (h : n < 32) (rest : List Char) :
    readString ('\x5c' :: 'u' :: '0' :: '0' :: hexChar (n / 16) :: hexChar (n % 16) :: rest) =
      (readString rest).map fun (s, rest) => (Char.ofNat n :: s, rest) := by
  have hsum : 16 * (n / 16) + n % 16 = n := Nat.div_add_mod n 16
  rw [readString.eq_def]
  simp only [Char.reduceEq, if_false, if_true, hexDigit_hexChar (show n / 16 < 16 by omega),
    hexDigit_hexChar (show n % 16 < 16 by omega)]
  cases readString rest with
  | none => rfl
  | some result => simp only [hsum, Option.map_some]

theorem readString_escapeChar (c : Char) (rest : List Char) :
    readString (escapeChar c ++ rest) = (readString rest).map fun (s, rest) => (c :: s, rest) := by
  unfold escapeChar
  split
  · next h =>
    subst h
    exact readString_escape (by decide) rfl rest
  split
  · next h =>
    subst h
    exact readString_escape (by decide) rfl rest
  split
  · next h =>
    subst h
    exact readString_escape (by decide) rfl rest
  split
  · next h =>
    subst h
    exact readString_escape (by decide) rfl rest
  split
  · next h =>
    subst h
    exact readString_escape (by decide) rfl rest
  split
  · next h =>
    subst h
    exact readString_escape (by decide) rfl rest
  split
  · next h =>
    subst h
    exact readString_escape (by decide) rfl rest
  split
  · next h =>
    have hc := readString_unicode h rest
    rwa [Char.ofNat_toNat] at hc
  · next hquote hslash _ _ _ _ _ _ => exact readString_plain hquote hslash rest

theorem readString_escaped (s rest : List Char) :
    readString (s.flatMap escapeChar ++ '\x22' :: rest) = some (s, rest) := by
  induction s with
  | nil =>
    rw [List.flatMap_nil, List.nil_append, readString.eq_def]
    simp
  | cons c s ih =>
    rw [List.flatMap_cons, List.append_assoc, readString_escapeChar, ih]
    rfl

/-- Text that does not go on a number. -/
def Ends (text : List Char) : Prop := ∀ c ∈ text.head?, isNumberChar c = false

theorem Number.isNumberChar_of_mem {n : Number} : ∀ c ∈ n.chars, isNumberChar c = true := by
  obtain ⟨chars, hnumeric⟩ := n
  cases chars with
  | nil => cases hnumeric
  | cons first rest =>
    simp only [isNumeric, Bool.and_eq_true, List.all_eq_true, Bool.or_eq_true] at hnumeric
    intro c hc
    rcases List.mem_cons.mp hc with rfl | hc
    · simp only [isNumberChar, Bool.or_eq_true]
      tauto
    · exact hnumeric.2 c hc

theorem readNumber_append {n : Number} {rest : List Char} (h : Ends rest) :
    readNumber (n.chars ++ rest) = some (.number n, rest) := by
  have htake : (n.chars ++ rest).takeWhile isNumberChar = n.chars := by
    rw [List.takeWhile_append_of_pos n.isNumberChar_of_mem]
    cases rest with
    | nil => simp
    | cons c rest => simp [h c rfl]
  have hdrop : (n.chars ++ rest).dropWhile isNumberChar = rest := by
    rw [List.dropWhile_append_of_pos n.isNumberChar_of_mem]
    cases rest with
    | nil => rfl
    | cons c rest => simp [h c rfl]
  rw [readNumber]
  simp only [htake, hdrop, n.numeric, dite_true]

/-- The first character of a number starts nothing else. -/
theorem readValue_number {n : Number} (fuel : Nat) (rest : List Char) :
    readValue (fuel + 1) (n.chars ++ rest) = readNumber (n.chars ++ rest) := by
  obtain ⟨chars, hnumeric⟩ := n
  cases chars with
  | nil => cases hnumeric
  | cons first chars =>
    simp only [isNumeric, Bool.and_eq_true, Bool.or_eq_true, beq_iff_eq] at hnumeric
    have hfirst : first ≠ '\x22' ∧ first ≠ '[' ∧ first ≠ '\x7b' ∧ first ≠ 'n' ∧ first ≠ 't' ∧
        first ≠ 'f' := by
      rcases hnumeric.1 with hdigit | rfl
      · refine ⟨?_, ?_, ?_, ?_, ?_, ?_⟩ <;> (rintro rfl; revert hdigit; decide)
      · decide
    obtain ⟨h1, h2, h3, h4, h5, h6⟩ := hfirst
    simp only [List.cons_append, readValue, if_neg h1, if_neg h2, if_neg h3, if_neg h4, if_neg h5,
      if_neg h6]

theorem ends_renderItems (items : List Value) (rest : List Char) : Ends (renderItems items ++ rest) := by
  intro c hc
  cases items <;> (rw [renderItems] at hc; cases hc; rfl)

theorem ends_renderFields (fields : Fields) (rest : List Char) : Ends (renderFields fields ++ rest) := by
  intro c hc
  cases fields with
  | nil => rw [renderFields] at hc; cases hc; rfl
  | cons field fields => rw [renderFields] at hc; cases hc; rfl

/-- The text of a value does not start with a closing bracket. -/
theorem head_render (value : Value) :
    ∃ c rest, render value = c :: rest ∧ c ≠ ']' ∧ c ≠ '\x7d' := by
  match value with
  | .null | .array [] | .array (_ :: _) | .object [] | .object ((_, _) :: _)
  | .bool true | .bool false => exact ⟨_, _, by rw [render], by decide, by decide⟩
  | .string _ => exact ⟨_, _, by rw [render, renderString], by decide, by decide⟩
  | .number ⟨[], h⟩ => cases h
  | .number ⟨c :: rest, h⟩ =>
    refine ⟨c, rest, by rw [render], ?_, ?_⟩ <;> (rintro rfl; simp [isNumeric] at h)

theorem length_render_pos (value : Value) : 0 < (render value).length := by
  obtain ⟨c, rest, h, -⟩ := head_render value
  rw [h]
  exact Nat.succ_pos _

/-- A member, with what follows it in the object. -/
def renderField (key : String) (value : Value) (fields : Fields) : List Char :=
  renderString key ++ ':' :: (render value ++ renderFields fields)

mutual

theorem readValue_render (value : Value) (fuel : Nat) (rest : List Char)
    (hfuel : (render value).length ≤ fuel) (hends : ∀ n, value = .number n → Ends rest) :
    readValue fuel (render value ++ rest) = some (value, rest) := by
  have hpos := length_render_pos value
  obtain ⟨fuel, rfl⟩ : ∃ n, fuel = n + 1 := ⟨fuel - 1, by omega⟩
  match value with
  | .null => simp [render, readValue, readWord]
  | .bool true => simp [render, readValue, readWord]
  | .bool false => simp [render, readValue, readWord]
  | .number n =>
    rw [render, readValue_number]
    exact readNumber_append (hends n rfl)
  | .string s => simp [render, renderString, readValue, readString_escaped]
  | .array [] => simp [render, readValue]
  | .object [] => simp [render, readValue]
  | .array (item :: items) =>
    rw [render, List.length_cons, List.length_append] at hfuel
    obtain ⟨c, tail, hhead, hc, -⟩ := head_render item
    have hopen : (render item ++ renderItems items ++ rest).head? ≠ some ']' := by
      rw [hhead]
      simpa using hc
    have hitem := readValue_render item fuel _ (by omega) fun _ _ => ends_renderItems items rest
    have hitems := readItems_render items fuel rest (by omega)
    rw [← List.append_assoc] at hitem
    simp only [render, List.cons_append, readValue, Char.reduceEq, if_false, if_true, if_neg hopen,
      hitem, hitems, Option.map_some]
  | .object ((key, value) :: fields) =>
    have hrender : render (.object ((key, value) :: fields)) =
        '\x7b' :: renderField key value fields := by rw [render, renderField]
    rw [hrender, List.length_cons] at hfuel
    have hopen : (renderField key value fields ++ rest).head? ≠ some '\x7d' := by
      simp [renderField, renderString]
    have hfields := readField_render key value fields fuel rest (by omega)
    simp only [hrender, List.cons_append, readValue, Char.reduceEq, if_false, if_true, if_neg hopen,
      hfields, Option.map_some]
termination_by fuel

theorem readItems_render (items : List Value) (fuel : Nat) (rest : List Char)
    (hfuel : (renderItems items).length ≤ fuel) :
    readItems fuel (renderItems items ++ rest) = some (items, rest) := by
  match items with
  | [] =>
    rw [renderItems, List.length_singleton] at hfuel
    obtain ⟨fuel, rfl⟩ : ∃ n, fuel = n + 1 := ⟨fuel - 1, by omega⟩
    simp [renderItems, readItems]
  | item :: items =>
    rw [renderItems, List.length_cons, List.length_append] at hfuel
    obtain ⟨fuel, rfl⟩ : ∃ n, fuel = n + 1 := ⟨fuel - 1, by omega⟩
    have hitem := readValue_render item fuel _ (by omega) fun _ _ => ends_renderItems items rest
    have hitems := readItems_render items fuel rest (by omega)
    rw [← List.append_assoc] at hitem
    simp only [renderItems, List.cons_append, readItems, Char.reduceEq, if_false, if_true, hitem,
      hitems, Option.map_some]
termination_by fuel

theorem readField_render (key : String) (value : Value) (fields : Fields) (fuel : Nat)
    (rest : List Char) (hfuel : (renderField key value fields).length ≤ fuel) :
    readField fuel (renderField key value fields ++ rest) = some ((key, value) :: fields, rest) := by
  have hlength : (renderField key value fields).length =
      (renderString key).length + ((render value).length + (renderFields fields).length + 1) := by
    simp [renderField]
  obtain ⟨fuel, rfl⟩ : ∃ n, fuel = n + 1 := ⟨fuel - 1, by omega⟩
  have hvalue := readValue_render value fuel _ (by omega) fun _ _ => ends_renderFields fields rest
  have hfields := readFields_render fields fuel rest (by omega)
  have hkey : readString (renderField key value fields ++ rest).tail =
      some (key.toList, ':' :: (render value ++ (renderFields fields ++ rest))) := by
    have htail : (renderField key value fields ++ rest).tail = key.toList.flatMap escapeChar ++
        '\x22' :: ':' :: (render value ++ (renderFields fields ++ rest)) := by
      simp [renderField, renderString]
    rw [htail, readString_escaped]
  simp only [readField, hkey, hvalue, hfields, Option.map_some, String.ofList_toList]
termination_by fuel

theorem readFields_render (fields : Fields) (fuel : Nat) (rest : List Char)
    (hfuel : (renderFields fields).length ≤ fuel) :
    readFields fuel (renderFields fields ++ rest) = some (fields, rest) := by
  match fields with
  | [] =>
    rw [renderFields, List.length_singleton] at hfuel
    obtain ⟨fuel, rfl⟩ : ∃ n, fuel = n + 1 := ⟨fuel - 1, by omega⟩
    simp [renderFields, readFields]
  | (key, value) :: fields =>
    have hrender : renderFields ((key, value) :: fields) = ',' :: renderField key value fields := by
      rw [renderFields, renderField]
    rw [hrender, List.length_cons] at hfuel
    obtain ⟨fuel, rfl⟩ : ∃ n, fuel = n + 1 := ⟨fuel - 1, by omega⟩
    have hfield := readField_render key value fields fuel rest (by omega)
    simp only [hrender, List.cons_append, readFields, Char.reduceEq, if_false, if_true, hfield]
termination_by fuel

end

/-- Different values have different texts. -/
theorem render_inj {a b : Value} : render a = render b ↔ a = b := by
  refine ⟨fun h => ?_, fun h => h ▸ rfl⟩
  have hnil : Ends [] := fun _ hc => nomatch hc
  have hread := readValue_render a (render a).length [] le_rfl fun _ _ => hnil
  rw [h, readValue_render b (render b).length [] le_rfl fun _ _ => hnil] at hread
  exact (congrArg Prod.fst (Option.some.inj hread)).symm

instance : DecidableEq Value := fun _ _ => decidable_of_iff _ render_inj

theorem exists_render_object (fields : Fields) : ∃ rest, render (.object fields) = '\x7b' :: rest := by
  match fields with
  | [] => exact ⟨_, by rw [render]⟩
  | (_, _) :: _ => exact ⟨_, by rw [render]⟩

/-- No other text of a value begins the text of an object. -/
theorem eq_of_render_append {value : Value} {fields : Fields} {rest : List Char}
    (h : render value ++ rest = render (.object fields)) : value = .object fields ∧ rest = [] := by
  have hnumber : ∀ n, value ≠ .number n := by
    rintro n rfl
    obtain ⟨text, htext⟩ := exists_render_object fields
    rw [htext, render] at h
    obtain ⟨chars, hnumeric⟩ := n
    cases chars with
    | nil => cases hnumeric
    | cons first more =>
      obtain rfl : first = '\x7b' := (List.cons.inj h).1
      have hfirst : isNumberChar '\x7b' = true :=
        Number.isNumberChar_of_mem (n := ⟨_, hnumeric⟩) _ List.mem_cons_self
      exact absurd hfirst (by decide)
  let fuel := (render value).length + (render (.object fields)).length
  have hread := readValue_render value fuel rest (Nat.le_add_right ..) fun n hn => absurd hn (hnumber n)
  have hobject := readValue_render (.object fields) fuel [] (Nat.le_add_left ..) nofun
  rw [List.append_nil, ← h, hread] at hobject
  cases hobject
  exact ⟨rfl, rfl⟩

/-! ## What the text is made of -/

/-- Not a control character of ASCII. -/
def isPlain (c : Char) : Bool := decide (32 ≤ c.toNat)

theorem plain_escapeChar (c : Char) : (escapeChar c).all isPlain := by
  have hhex : ∀ n : Nat, n < 16 → isPlain (hexChar n) := by decide
  unfold escapeChar
  split
  · rfl
  split
  · rfl
  split
  · rfl
  split
  · rfl
  split
  · rfl
  split
  · rfl
  split
  · rfl
  split
  · simp only [List.all_cons, hhex (c.toNat / 16) (by omega), hhex (c.toNat % 16) (by omega)]
    rfl
  · next hc => simpa [isPlain] using hc

theorem plain_renderString (s : String) : (renderString s).all isPlain := by
  have hs : (s.toList.flatMap escapeChar).all isPlain := by
    rw [List.all_flatMap]
    exact List.all_eq_true.mpr fun c _ => plain_escapeChar c
  rw [renderString, List.all_cons, List.all_append, hs]
  rfl

theorem Number.plain (n : Number) : n.chars.all isPlain := by
  refine List.all_eq_true.mpr fun c hc => ?_
  have hnumber := n.isNumberChar_of_mem c hc
  simp only [isNumberChar, Bool.or_eq_true, beq_iff_eq] at hnumber
  rcases hnumber with ((((hdigit | rfl) | rfl) | rfl) | rfl) | rfl
  · simp only [Char.isDigit, Bool.and_eq_true, decide_eq_true_eq] at hdigit
    have hle : (48 : Nat) ≤ c.val.toNat := UInt32.le_iff_toNat_le.mp hdigit.1
    exact decide_eq_true (Nat.le_trans (by decide) hle)
  all_goals rfl

mutual

theorem plain_render (value : Value) : (render value).all isPlain := by
  match value with
  | .null => rw [render]; rfl
  | .bool true => rw [render]; rfl
  | .bool false => rw [render]; rfl
  | .number n => rw [render]; exact n.plain
  | .string s => rw [render]; exact plain_renderString s
  | .array [] => rw [render]; rfl
  | .object [] => rw [render]; rfl
  | .array (item :: items) =>
    rw [render, List.all_cons, List.all_append, plain_render item, plain_renderItems items]
    rfl
  | .object ((key, value) :: fields) =>
    rw [render, List.all_cons, List.all_append, List.all_cons, List.all_append,
      plain_renderString key, plain_render value, plain_renderFields fields]
    rfl

theorem plain_renderItems (items : List Value) : (renderItems items).all isPlain := by
  match items with
  | [] => rw [renderItems]; rfl
  | item :: items =>
    rw [renderItems, List.all_cons, List.all_append, plain_render item, plain_renderItems items]
    rfl

theorem plain_renderFields (fields : List (String × Value)) : (renderFields fields).all isPlain := by
  match fields with
  | [] => rw [renderFields]; rfl
  | (key, value) :: fields =>
    rw [renderFields, List.all_cons, List.all_append, List.all_cons, List.all_append,
      plain_renderString key, plain_render value, plain_renderFields fields]
    rfl

end

/-- Compact text has no control characters: it is one line. -/
theorem not_mem_render {c : Char} (h : isPlain c = false) (value : Value) : c ∉ render value := by
  intro hmem
  rw [List.all_eq_true.mp (plain_render value) c hmem] at h
  cases h

theorem newline_not_mem_render (value : Value) : '\n' ∉ render value := not_mem_render rfl value

/-! ## Numbers -/

/-- `u64::MAX`. -/
def u64Max : Nat := 2 ^ 64 - 1

theorem isNumeric_toDigits (n : Nat) : isNumeric (Nat.toDigits 10 n) = true ∧
    (Nat.toDigits 10 n).all isNumberChar = true := by
  have hdigits : ∀ c ∈ Nat.toDigits 10 n, c.isDigit := fun c hc =>
    Nat.isDigit_of_mem_toDigits (by decide) le_rfl hc
  have hall : ∀ c ∈ Nat.toDigits 10 n, isNumberChar c := fun c hc => by
    simp [isNumberChar, hdigits c hc]
  refine ⟨?_, List.all_eq_true.mpr hall⟩
  cases hchars : Nat.toDigits 10 n with
  | nil => exact absurd hchars Nat.toDigits_ne_nil
  | cons first rest =>
    rw [hchars] at hdigits hall
    simp only [isNumeric, Bool.and_eq_true, Bool.or_eq_true, List.all_eq_true]
    exact ⟨.inl (hdigits first List.mem_cons_self), fun c hc => hall c (List.mem_cons_of_mem _ hc)⟩

def Number.ofNat (n : Nat) : Number := ⟨Nat.toDigits 10 n, (isNumeric_toDigits n).1⟩

def Number.ofInt : Int → Number
  | .ofNat n => ofNat n
  | .negSucc n => ⟨'-' :: Nat.toDigits 10 (n + 1), by
    simp [isNumeric, (isNumeric_toDigits (n + 1)).2]⟩

/-- `Number::as_u64`. -/
def Number.asU64 (n : Number) : Option Nat :=
  if n.chars.all Char.isDigit then
    let value := Nat.ofDigitChars 10 n.chars 0
    if value ≤ u64Max then some value else none
  else none

theorem Number.asU64_ofNat (n : Nat) : (ofNat n).asU64 = if n ≤ u64Max then some n else none := by
  have hdigits : (Nat.toDigits 10 n).all Char.isDigit := by
    rw [List.all_eq_true]
    exact fun c hc => Nat.isDigit_of_mem_toDigits (by decide) le_rfl hc
  have hchars : (ofNat n).chars = Nat.toDigits 10 n := rfl
  rw [asU64, hchars, if_pos hdigits, Nat.ofDigitChars_ten_toDigits]

/-! ## A reader of compact text -/

mutual

def depth : Value → Nat
  | .null | .bool _ | .number _ | .string _ => 0
  | .array items => itemsDepth items + 1
  | .object fields => fieldsDepth fields + 1

def itemsDepth : List Value → Nat
  | [] => 0
  | item :: items => max (depth item) (itemsDepth items)

def fieldsDepth : List (String × Value) → Nat
  | [] => 0
  | (_, value) :: fields => max (depth value) (fieldsDepth fields)

end

/-- Reads compact text of values up to a depth, and no other text. -/
def readCompact (limit : Nat) (text : List Char) : Option Value :=
  match readValue text.length text with
  | some (value, []) => if render value = text ∧ depth value ≤ limit then some value else none
  | _ => none

theorem readCompact_eq_some_iff {limit : Nat} {text : List Char} {value : Value} :
    readCompact limit text = some value ↔ text = render value ∧ depth value ≤ limit := by
  constructor
  · intro h
    unfold readCompact at h
    split at h
    · split at h
      · next hvalue =>
        cases h
        exact ⟨hvalue.1.symm, hvalue.2⟩
      · cases h
    · cases h
  · rintro ⟨rfl, hdepth⟩
    have hread := readValue_render value (render value).length [] le_rfl fun _ _ _ hc => nomatch hc
    rw [List.append_nil] at hread
    simp [readCompact, hread, hdepth]

end Tally.Lib
