import Tally.Driver.JsonReads

/-!
# The codec of the driver

`stringify` writes a JSON text of a value, which the parser reads back; and the text that it writes of
a value that was read does not depend on white space, on the spelling of characters, or on the order
of members with different names (`json_codec_exact`).
-/

namespace Tally.Driver

open Tally.Lib

namespace Json

/-! ## Objects are maps -/

/-- The entries of an object with some members, as those of a map. -/
def fieldEntries (fields : Fields) : List (String × Json) :=
  fields.map fun field => (field.1, ofValue field.2)

theorem ofFields_entries (table : Table String Json) (fields : Fields) :
    ofFields table.entries fields = (table.extend (fieldEntries fields)).entries := by
  induction fields generalizing table with
  | nil => rfl
  | cons field fields ih => exact ih (table.insert field.1 (ofValue field.2))

/-- The map of an object. -/
def ofFieldsTable (fields : Fields) : Table String Json :=
  (∅ : Table String Json).extend (fieldEntries fields)

theorem ofFields_nil (fields : Fields) : ofFields [] fields = (ofFieldsTable fields).entries :=
  ofFields_entries ∅ fields

/-- An object keeps the last member with a name. -/
theorem get?_ofFieldsTable (fields : Fields) (key : String) :
    (ofFieldsTable fields).get? key =
      (fields.filter fun field => field.1 = key).getLast?.map fun field => ofValue field.2 := by
  rw [ofFieldsTable, Table.get?_extend, Table.get?_empty, Option.or_none, fieldEntries, List.filter_map,
    List.getLast?_map, Option.map_map]
  rfl

/-! ## What every part of a value has -/

mutual

/-- A value and all values in it. -/
def Everywhere (p : Json → Prop) : Json → Prop
  | .null => p .null
  | .bool value => p (.bool value)
  | .number lexeme => p (.number lexeme)
  | .string value => p (.string value)
  | .array values => p (.array values) ∧ EverywhereValues p values
  | .object entries => p (.object entries) ∧ EverywhereEntries p entries

def EverywhereValues (p : Json → Prop) : List Json → Prop
  | [] => True
  | value :: values => Everywhere p value ∧ EverywhereValues p values

def EverywhereEntries (p : Json → Prop) : List (String × Json) → Prop
  | [] => True
  | (_, value) :: entries => Everywhere p value ∧ EverywhereEntries p entries

end

/-- The entries of an object are those of a `BTreeMap`. -/
def IsMap : Json → Prop
  | .object entries => entries.Pairwise fun a b => a.1 < b.1
  | _ => True

/-- The lexeme of a number is one. -/
def HasNumber : Json → Prop
  | .number lexeme => IsNumber lexeme.toList
  | _ => True

theorem everywhereEntries_iff {p : Json → Prop} {entries : List (String × Json)} :
    EverywhereEntries p entries ↔ ∀ entry ∈ entries, entry.2.Everywhere p := by
  induction entries with
  | nil => exact ⟨fun _ _ h => (nomatch h), fun _ => trivial⟩
  | cons entry entries ih => rw [EverywhereEntries, ih, List.forall_mem_cons]

theorem exists_field_of_mem {fields : Fields} {entry : String × Json}
    (h : entry ∈ (ofFieldsTable fields).entries) : ∃ field ∈ fields, ofValue field.2 = entry.2 := by
  have hget := (Table.mem_entries_iff _).mp (show (entry.1, entry.2) ∈ _ from h)
  rw [get?_ofFieldsTable] at hget
  obtain ⟨field, hfield, hvalue⟩ := Option.map_eq_some_iff.mp hget
  exact ⟨field, (List.mem_filter.mp (List.mem_of_getLast? hfield)).1, hvalue⟩

/-- What maps, numbers of the grammar and the other values have, every part of a value in a text has. -/
structure OfTexts (p : Json → Prop) : Prop where
  null : p .null
  bool : ∀ value, p (.bool value)
  number : ∀ lexeme, IsNumber lexeme.toList → p (.number lexeme)
  string : ∀ value, p (.string value)
  array : ∀ values, p (.array values)
  object : ∀ entries : Table String Json, p (.object entries.entries)

theorem everywhere_object {p : Json → Prop} (hp : OfTexts p) {fields : Fields}
    (h : ∀ field ∈ fields, (ofValue field.2).Everywhere p) :
    (ofValue (.object fields)).Everywhere p := by
  rw [ofValue, ofFields_nil, Everywhere, everywhereEntries_iff]
  refine ⟨hp.object _, fun entry hentry => ?_⟩
  obtain ⟨field, hfield, hvalue⟩ := exists_field_of_mem hentry
  exact hvalue ▸ h field hfield

mutual

theorem everywhere_ofValue {p : Json → Prop} (hp : OfTexts p) {text : List Char} {raw : Value}
    (h : Denotes text raw) : (ofValue raw).Everywhere p := by
  match h with
  | .litNull => exact hp.null
  | .litTrue => exact hp.bool true
  | .litFalse => exact hp.bool false
  | .number (n := n) hnumber => exact hp.number _ (by rwa [String.toList_ofList])
  | .string _ => exact hp.string _
  | .emptyArray _ => exact ⟨hp.array _, trivial⟩
  | .array hitems => exact ⟨hp.array _, everywhere_ofItems hp hitems⟩
  | .emptyObject _ => exact everywhere_object hp nofun
  | .object hfields => exact everywhere_object hp (everywhere_ofFields hp hfields)

theorem everywhere_ofItems {p : Json → Prop} (hp : OfTexts p) {text : List Char} {items : List Value}
    (h : DenotesItems text items) : EverywhereValues p (ofItems items) := by
  match h with
  | .last _ hitem _ => exact ⟨everywhere_ofValue hp hitem, trivial⟩
  | .cons _ hitem _ hrest => exact ⟨everywhere_ofValue hp hitem, everywhere_ofItems hp hrest⟩

theorem everywhere_ofFields {p : Json → Prop} (hp : OfTexts p) {text : List Char} {fields : Fields}
    (h : DenotesFields text fields) : ∀ field ∈ fields, (ofValue field.2).Everywhere p := by
  match h with
  | .last _ _ hvalue _ =>
    intro field hfield
    rw [List.mem_singleton.mp hfield]
    exact everywhere_ofValue hp hvalue
  | .cons _ _ hvalue _ hrest =>
    exact List.forall_mem_cons.mpr ⟨everywhere_ofValue hp hvalue, everywhere_ofFields hp hrest⟩

end

/-! ## The text of a value -/

theorem spells_writeChar (c : Char) : Spells (writeChar c) c := by
  have hshort : ∀ e d : Char, shortEscape e = some d → Spells ['\x5c', e] d := fun _ _ => .short
  unfold writeChar
  split
  · next h => exact h ▸ hshort '\x22' '\x22' rfl
  split
  · next h => exact h ▸ hshort '\x5c' '\x5c' rfl
  split
  · next h => exact h ▸ hshort 'b' '\x08' rfl
  split
  · next h => exact h ▸ hshort 'f' '\x0c' rfl
  split
  · next h => exact h ▸ hshort 'n' '\n' rfl
  split
  · next h => exact h ▸ hshort 'r' '\r' rfl
  split
  · next h => exact h ▸ hshort 't' '\t' rfl
  split
  · next hcontrol =>
    have hle : c.toNat ≤ 31 := hcontrol
    have hall : ∀ n < 32, ['0', '0', Nat.digitChar (n / 16), Nat.digitChar (n % 16)].foldlM
        (fun value c => (anyHexDigit c).map (value * 16 + ·)) 0 = some n := by decide
    have hquad : IsQuad ['0', '0', Nat.digitChar (c.toNat / 16), Nat.digitChar (c.toNat % 16)] c.toNat :=
      ⟨rfl, hall c.toNat (Nat.lt_succ_of_le hle)⟩
    have hsurrogate : ∀ n < 32, isLeadingSurrogate n = false ∧ isTrailingSurrogate n = false := by decide
    obtain ⟨hleading, htrailing⟩ := hsurrogate c.toNat (Nat.lt_succ_of_le hle)
    have hspells := Spells.unicode hquad hleading htrailing
    rwa [Char.ofNat_toNat] at hspells
  · next hquote hescape _ _ _ _ _ hcontrol =>
    refine .plain ?_ hquote hescape
    have hlt : ¬c.toNat ≤ 31 := hcontrol
    omega

theorem spellsAll_write (text : List Char) : SpellsAll (text.flatMap writeChar) text := by
  induction text with
  | nil => exact .nil
  | cons c text ih =>
    rw [List.flatMap_cons]
    exact .cons (spells_writeChar c) ih

theorem isString_writeString (s : String) : IsString (writeString s) s :=
  ⟨_, spellsAll_write s.toList, rfl⟩

theorem isName_writeString (name : String) : IsName (writeString name) name :=
  ⟨[], writeString name, [], blank_nil, isString_writeString name, blank_nil, (List.append_nil _).symm⟩

/-- The values after the first one have a comma before them. -/
theorem writeValues_of_ne_nil {values : List Json} (h : values ≠ []) :
    writeValues false values = ',' :: writeValues true values := by
  obtain ⟨value, values, rfl⟩ := List.exists_cons_of_ne_nil h
  simp [writeValues]

theorem writeEntries_of_ne_nil {entries : List (String × Json)} (h : entries ≠ []) :
    writeEntries false entries = ',' :: writeEntries true entries := by
  obtain ⟨⟨key, value⟩, entries, rfl⟩ := List.exists_cons_of_ne_nil h
  simp [writeEntries]

mutual

/-- The text that is written of a value is one of the texts of it. -/
theorem denotes_stringify (value : Json) (hmap : value.Everywhere IsMap)
    (hnumber : value.Everywhere HasNumber) :
    ∃ raw, Denotes (stringify value) raw ∧ ofValue raw = value := by
  match value with
  | .null => exact ⟨.null, .litNull, rfl⟩
  | .bool true => exact ⟨.bool true, .litTrue, rfl⟩
  | .bool false => exact ⟨.bool false, .litFalse, rfl⟩
  | .number lexeme =>
    let n : Number := ⟨lexeme.toList, isNumeric_of_isNumber hnumber⟩
    exact ⟨.number n, Denotes.number (n := n) hnumber, by rw [ofValue, String.ofList_toList]⟩
  | .string s => exact ⟨.string s, .string (isString_writeString s), rfl⟩
  | .array [] => exact ⟨.array [], .emptyArray blank_nil, rfl⟩
  | .array (item :: items) =>
    obtain ⟨raws, hraws, hvalues⟩ :=
      denotesItems_write (item :: items) (List.cons_ne_nil _ _) hmap.2 hnumber.2
    exact ⟨.array raws, .array hraws, by rw [ofValue, hvalues]⟩
  | .object [] => exact ⟨.object [], .emptyObject blank_nil, rfl⟩
  | .object (entry :: entries) =>
    obtain ⟨fields, hfields, hentries⟩ :=
      denotesFields_write (entry :: entries) (List.cons_ne_nil _ _) hmap.2 hnumber.2
    refine ⟨.object fields, .object hfields, ?_⟩
    have hself := Table.extend_entries (⟨entry :: entries, hmap.1⟩ : Table String Json)
    rw [ofValue, ofFields_nil, ofFieldsTable, hentries, hself]

theorem denotesItems_write (values : List Json) (hne : values ≠ [])
    (hmap : EverywhereValues IsMap values) (hnumber : EverywhereValues HasNumber values) :
    ∃ raws, DenotesItems (writeValues true values) raws ∧ ofItems raws = values := by
  match values with
  | [] => exact absurd rfl hne
  | item :: items =>
    obtain ⟨raw, hraw, hvalue⟩ := denotes_stringify item hmap.1 hnumber.1
    by_cases hitems : items = []
    · refine ⟨[raw], ?_, by rw [ofItems, ofItems, hvalue, hitems]⟩
      have hlast := DenotesItems.last blank_nil hraw blank_nil
      simpa only [writeValues, hitems, if_true, List.nil_append, List.append_nil] using hlast
    · obtain ⟨raws, hraws, hvalues⟩ := denotesItems_write items hitems hmap.2 hnumber.2
      refine ⟨raw :: raws, ?_, by rw [ofItems, hvalue, hvalues]⟩
      have hcons := DenotesItems.cons blank_nil hraw blank_nil hraws
      simpa only [writeValues, writeValues_of_ne_nil hitems, if_true, List.nil_append] using hcons

theorem denotesFields_write (entries : List (String × Json)) (hne : entries ≠ [])
    (hmap : EverywhereEntries IsMap entries) (hnumber : EverywhereEntries HasNumber entries) :
    ∃ fields, DenotesFields (writeEntries true entries) fields ∧ fieldEntries fields = entries := by
  match entries with
  | [] => exact absurd rfl hne
  | (key, item) :: entries =>
    obtain ⟨raw, hraw, hvalue⟩ := denotes_stringify item hmap.1 hnumber.1
    by_cases hentries : entries = []
    · refine ⟨[(key, raw)], ?_, by rw [fieldEntries, List.map_singleton, hvalue, hentries]⟩
      have hlast := DenotesFields.last (isName_writeString key) blank_nil hraw blank_nil
      simpa only [writeEntries, hentries, if_true, List.nil_append, List.append_nil] using hlast
    · obtain ⟨fields, hfields, hrest⟩ := denotesFields_write entries hentries hmap.2 hnumber.2
      refine ⟨(key, raw) :: fields, ?_, ?_⟩
      · have hcons := DenotesFields.cons (isName_writeString key) blank_nil hraw blank_nil hfields
        simpa only [writeEntries, writeEntries_of_ne_nil hentries, if_true, List.nil_append,
          List.append_assoc, List.cons_append] using hcons
      · rw [← hrest, fieldEntries, List.map_cons, hvalue]
        rfl

end

/-! ## The order of members -/

/-- Values whose objects have the same members, in an order that may be another one for members with
different names. -/
inductive Reordered : Value → Value → Prop
  | refl (value : Value) : Reordered value value
  | trans {a b c : Value} (hab : Reordered a b) (hbc : Reordered b c) : Reordered a c
  | item {a b : Value} (before after : List Value) (h : Reordered a b) :
    Reordered (.array (before ++ a :: after)) (.array (before ++ b :: after))
  | member {a b : Value} (before after : Fields) (key : String) (h : Reordered a b) :
    Reordered (.object (before ++ (key, a) :: after)) (.object (before ++ (key, b) :: after))
  | order {a b : Fields} (hperm : a.Perm b)
      (hsame : ∀ key, a.filter (fun field => field.1 = key) = b.filter fun field => field.1 = key) :
    Reordered (.object a) (.object b)

theorem ofItems_eq_map (items : List Value) : ofItems items = items.map ofValue := by
  induction items with
  | nil => rfl
  | cons item items ih => rw [ofItems, ih, List.map_cons]

theorem Reordered.ofValue_eq {a b : Value} (h : Reordered a b) : ofValue a = ofValue b := by
  induction h with
  | refl => rfl
  | trans hab hbc ihab ihbc => exact ihab.trans ihbc
  | item before after h ih =>
    rw [ofValue, ofValue, ofItems_eq_map, ofItems_eq_map, List.map_append, List.map_append, List.map_cons,
      List.map_cons, ih]
  | member before after key h ih =>
    rw [ofValue, ofValue, ofFields_nil, ofFields_nil, ofFieldsTable, ofFieldsTable, fieldEntries,
      fieldEntries, List.map_append, List.map_append, List.map_cons, List.map_cons, ih]
  | @order a b hperm hsame =>
    have htable : ofFieldsTable a = ofFieldsTable b := by
      apply Table.ext_get?
      intro key
      rw [get?_ofFieldsTable, get?_ofFieldsTable, hsame key]
    rw [ofValue, ofValue, ofFields_nil, ofFields_nil, htable]

/-- Members with different names may stand in any order. -/
theorem Reordered.of_perm {a b : Fields} (hperm : a.Perm b) (hnodup : (a.map Prod.fst).Nodup) :
    Reordered (.object a) (.object b) := by
  refine .order hperm fun key => ?_
  have hfilter := hperm.filter fun field => field.1 = key
  -- at most one member has the name
  have hone : (a.filter fun field => field.1 = key).length ≤ 1 := by
    rw [← List.countP_eq_length_filter]
    have hcount : (a.map Prod.fst).count key ≤ 1 := List.nodup_iff_count_le_one.mp hnodup key
    rw [List.count, List.countP_map] at hcount
    exact Nat.le_trans (List.countP_mono_left fun field _ h => h) hcount
  cases hcases : a.filter fun field => field.1 = key with
  | nil =>
    rw [hcases] at hfilter
    exact hfilter.nil_eq
  | cons field rest =>
    rw [hcases] at hfilter hone
    have hrest : rest = [] := List.eq_nil_of_length_eq_zero (by rw [List.length_cons] at hone; omega)
    rw [hrest] at hfilter ⊢
    exact hfilter.singleton_eq

end Json

/-! ## The codec -/

theorem parse_stringify {value : Json} (hmap : value.Everywhere Json.IsMap)
    (hnumber : value.Everywhere Json.HasNumber) : Parser.parse value.stringify = .ok value := by
  obtain ⟨raw, hraw, hvalue⟩ := Json.denotes_stringify value hmap hnumber
  exact Parser.parse_eq_ok_iff.mpr ⟨raw, ⟨[], value.stringify, [], blank_nil, hraw, blank_nil,
    (List.append_nil _).symm⟩, hvalue⟩

/-- Every part of a value that was read has what maps and numbers of the grammar have. -/
theorem everywhere_of_parse {p : Json → Prop} (hp : Json.OfTexts p) {text : List Char} {value : Json}
    (h : Parser.parse text = .ok value) : value.Everywhere p := by
  obtain ⟨raw, ⟨_, _, _, -, hraw, -, -⟩, rfl⟩ := Parser.parse_eq_ok_iff.mp h
  exact Json.everywhere_ofValue hp hraw

theorem isMap_of_parse {text : List Char} {value : Json} (h : Parser.parse text = .ok value) :
    value.Everywhere Json.IsMap :=
  everywhere_of_parse ⟨trivial, fun _ => trivial, fun _ _ => trivial, fun _ => trivial, fun _ => trivial,
    fun entries => entries.sorted⟩ h

theorem hasNumber_of_parse {text : List Char} {value : Json} (h : Parser.parse text = .ok value) :
    value.Everywhere Json.HasNumber :=
  everywhere_of_parse ⟨trivial, fun _ => trivial, fun _ h => h, fun _ => trivial, fun _ => trivial,
    fun _ => trivial⟩ h

/-- What is written is read back; what is read are the values in JSON texts; texts that differ in white
space, in the spelling of characters and in the order of members with different names only are written
the same. -/
theorem json_codec_exact :
    (∀ value : Json, value.Everywhere Json.IsMap → value.Everywhere Json.HasNumber →
      Parser.parse value.stringify = .ok value) ∧
    (∀ text value, Parser.parse text = .ok value ↔
      ∃ raw, IsJsonText text raw ∧ Json.ofValue raw = value) ∧
    (∀ text other a b, IsJsonText text a → IsJsonText other b → Json.Reordered a b →
      ∃ value next, Parser.parse text = .ok value ∧ Parser.parse other = .ok next ∧
        value.stringify = next.stringify) := by
  refine ⟨fun value => parse_stringify, fun text value => Parser.parse_eq_ok_iff, ?_⟩
  intro text other a b ha hb hreordered
  refine ⟨Json.ofValue a, Json.ofValue b, Parser.parse_eq_ok_iff.mpr ⟨a, ha, rfl⟩,
    Parser.parse_eq_ok_iff.mpr ⟨b, hb, rfl⟩, ?_⟩
  rw [hreordered.ofValue_eq]

/-! ## Members with the same name -/

namespace CodecSample

/-- An object with two members, the values of which are digits. -/
def membersText (token next : List Char) (c d : Char) : List Char :=
  '\x7b' :: ((token ++ ':' :: ([] ++ ([c] ++ ([] ++ ',' :: (next ++
    ':' :: ([] ++ ([d] ++ []))))))) ++ ['\x7d'])

/-- An object with two members `a`, the values of which are digits. -/
def repeatedText (first second : Char) : List Char :=
  membersText ['\x22', 'a', '\x22'] ['\x22', 'a', '\x22'] first second

def one : Number := ⟨['1'], rfl⟩

def two : Number := ⟨['2'], rfl⟩

theorem isName_a : IsName ['\x22', 'a', '\x22'] "a" :=
  ⟨[], ['\x22', 'a', '\x22'], [], blank_nil,
    ⟨['a'], .cons (.plain (by decide) (by decide) (by decide)) .nil, rfl⟩, blank_nil, rfl⟩

theorem isNumber_digit {c : Char} (hdigit : c.isDigit = true) (hzero : c ≠ '0') : IsNumber [c] :=
  ⟨[], [c], [], [], .inl rfl,
    .inr ⟨⟨nofun, fun _ h => List.mem_singleton.mp h ▸ hdigit⟩, fun h => hzero (Option.some.inj h)⟩,
    .inl rfl, .inl rfl, rfl⟩

theorem isJsonText_members {token next : List Char} {key other : String} (hkey : IsName token key)
    (hother : IsName next other) {first second : Number} (hfirst : IsNumber first.chars)
    (hsecond : IsNumber second.chars) {c d : Char} (hc : first.chars = [c]) (hd : second.chars = [d]) :
    IsJsonText (membersText token next c d) (.object [(key, .number first), (other, .number second)]) := by
  refine ⟨[], membersText token next c d, [], blank_nil, .object ?_, blank_nil,
    (List.append_nil _).symm⟩
  refine .cons hkey blank_nil ?_ blank_nil (.last hother blank_nil ?_ blank_nil)
  · exact hc ▸ .number hfirst
  · exact hd ▸ .number hsecond

theorem isJsonText_repeated {first second : Number} (hfirst : IsNumber first.chars)
    (hsecond : IsNumber second.chars) {c d : Char} (hc : first.chars = [c]) (hd : second.chars = [d]) :
    IsJsonText (repeatedText c d) (.object [("a", .number first), ("a", .number second)]) :=
  isJsonText_members isName_a isName_a hfirst hsecond hc hd

/-- The order of two members with one name is seen in what is written. -/
theorem repeated_name_order :
    ∃ a b : Fields, IsJsonText (repeatedText '1' '2') (.object a) ∧
      IsJsonText (repeatedText '2' '1') (.object b) ∧ a.Perm b ∧
      (Parser.parse (repeatedText '1' '2')).map Json.stringify ≠
        (Parser.parse (repeatedText '2' '1')).map Json.stringify := by
  have hone : IsNumber one.chars := isNumber_digit (by decide) (by decide)
  have htwo : IsNumber two.chars := isNumber_digit (by decide) (by decide)
  have hfirst := isJsonText_repeated hone htwo (c := '1') (d := '2') rfl rfl
  have hsecond := isJsonText_repeated htwo hone (c := '2') (d := '1') rfl rfl
  refine ⟨_, _, hfirst, hsecond, .swap .., ?_⟩
  rw [Parser.parse_eq_ok_iff.mpr ⟨_, hfirst, rfl⟩, Parser.parse_eq_ok_iff.mpr ⟨_, hsecond, rfl⟩]
  decide

/-! ## Members in another order -/

/-- A blank and the name `b`, which is spelled with an escape. -/
def escapedName : List Char := [' ', '\x22', '\x5c', 'u', '0', '0', '6', '2', '\x22']

theorem isName_escaped : IsName escapedName "b" := by
  have hquad : IsQuad ['0', '0', '6', '2'] 98 := ⟨rfl, by decide⟩
  have hspells : Spells ['\x5c', 'u', '0', '0', '6', '2'] 'b' := .unicode hquad (by decide) (by decide)
  refine ⟨[' '], ['\x22', '\x5c', 'u', '0', '0', '6', '2', '\x22'], [], ?_, ?_, blank_nil, rfl⟩
  · exact fun c hc => List.mem_singleton.mp hc ▸ by decide
  · exact ⟨_, .cons hspells .nil, rfl⟩

/-- `{ "\u0062":2,"a":1}` and `{"a":1, "\u0062":2}` are read as one map, which is written as one text,
and what is written is read back. -/
theorem json_codec_exact_reordered :
    ∃ value next : Json, Parser.parse (membersText escapedName ['\x22', 'a', '\x22'] '2' '1') = .ok value ∧
      Parser.parse (membersText ['\x22', 'a', '\x22'] escapedName '1' '2') = .ok next ∧
      value.stringify = next.stringify ∧ Parser.parse value.stringify = .ok next ∧
      next = Json.ofValue (.object [("a", .number one), ("b", .number two)]) := by
  obtain ⟨hwritten, hread, hsame⟩ := json_codec_exact
  have hone : IsNumber one.chars := isNumber_digit (by decide) (by decide)
  have htwo : IsNumber two.chars := isNumber_digit (by decide) (by decide)
  have htext := isJsonText_members isName_escaped isName_a htwo hone (c := '2') (d := '1') rfl rfl
  have hother := isJsonText_members isName_a isName_escaped hone htwo (c := '1') (d := '2') rfl rfl
  obtain ⟨value, next, hvalue, hnext, htexts⟩ :=
    hsame _ _ _ _ htext hother (.of_perm (.swap ..) (by decide))
  -- the second text is read as the map, and so is what is written of it
  have hmap := (hread _ _).mpr ⟨_, hother, rfl⟩
  have hagain := hwritten next (isMap_of_parse hnext) (hasNumber_of_parse hnext)
  exact ⟨value, next, hvalue, hnext, htexts, by rw [htexts, hagain], Except.ok.inj (hnext.symm.trans hmap)⟩

end CodecSample

end Tally.Driver
