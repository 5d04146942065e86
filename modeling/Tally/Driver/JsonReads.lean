import Tally.Driver.JsonTokens

/-!
# What the parser of the driver accepts

The parser returns exactly the values in JSON texts (`parse_eq_ok_iff`): of the members with one name
the last one, whatever the white space, the spelling of the characters and the place of the members.
-/

namespace Tally.Driver

open Tally.Lib

/-! ## The value in a text -/

mutual

/-- An object keeps the last member with a name. -/
def Json.ofValue : Value → Json
  | .null => .null
  | .bool value => .bool value
  | .number n => .number (String.ofList n.chars)
  | .string s => .string s
  | .array items => .array (Json.ofItems items)
  | .object fields => .object (Json.ofFields [] fields)

def Json.ofItems : List Value → List Json
  | [] => []
  | item :: items => Json.ofValue item :: Json.ofItems items

def Json.ofFields (entries : List (String × Json)) : List (String × Value) → List (String × Json)
  | [] => entries
  | (key, value) :: fields => Json.ofFields (Table.insertEntry key (Json.ofValue value) entries) fields

end

namespace Parser

variable {size : Nat}

/-! ## Soundness -/

theorem literal_sound {text : String} {bytes rest : Bytes} (h : literal size text bytes = .ok rest) :
    bytes = encode text.toList ++ rest := by
  unfold literal at h
  dsimp only at h
  split at h
  · next htake =>
    cases h
    conv_lhs => rw [← List.take_append_drop (encode text.toList).length bytes, htake]
  · cases h

/-- What a reader returns is a value in the text that it has gone over. -/
def Sound (read : Bytes → Except String (Json × Bytes)) : Prop :=
  ∀ {text : List Char} {value : Json} {rest : Bytes}, read (encode text) = .ok (value, rest) →
    ∃ piece left raw, text = piece ++ left ∧ rest = encode left ∧ Denotes piece raw ∧
      Json.ofValue raw = value

section

variable {read : Bytes → Except String (Json × Bytes)}

theorem values_sound (hread : Sound read) {rounds : Nat} {text : List Char} {parsed : List Json}
    {value : Json} {rest : Bytes} (h : values size read rounds (encode text) parsed = .ok (value, rest)) :
    ∃ piece left items, text = piece ++ ']' :: left ∧ rest = encode left ∧ DenotesItems piece items ∧
      value = .array (parsed ++ Json.ofItems items) := by
  induction rounds generalizing text parsed with
  | zero =>
    rw [values] at h
    cases h
  | succ rounds ih =>
    obtain ⟨before, afterSpace, rfl, hbefore, hspace⟩ := whitespace_sound text
    rw [values, hspace, bind_ok_iff] at h
    obtain ⟨⟨item, afterItem⟩, hitem, h⟩ := h
    obtain ⟨piece, afterPiece, raw, rfl, rfl, hpiece, rfl⟩ := hread hitem
    obtain ⟨after, left, rfl, hafter, hleft⟩ := whitespace_sound afterPiece
    dsimp only at h
    rw [hleft] at h
    split at h
    · next hclose =>
      cases h
      obtain ⟨left, rfl, rfl⟩ := exists_left_of_head (by decide) (take_eq_some.mp hclose)
      refine ⟨before ++ (piece ++ after), left, [raw], ?_, rfl, .last hbefore hpiece hafter, rfl⟩
      simp only [List.append_assoc]
    · split at h
      · next hcomma =>
        obtain ⟨left, rfl, rfl⟩ := exists_left_of_head (by decide) (take_eq_some.mp hcomma)
        obtain ⟨more, left, items, rfl, hrest, hitems, hvalue⟩ := ih h
        refine ⟨before ++ (piece ++ (after ++ ',' :: more)), left, raw :: items, ?_, hrest,
          .cons hbefore hpiece hafter hitems, ?_⟩
        · simp only [List.append_assoc, List.cons_append]
        · rw [hvalue, List.append_assoc]
          rfl
      · cases h

theorem array_sound (hread : Sound read) {text : List Char} {value : Json} {rest : Bytes}
    (h : array size read (encode ('[' :: text)) = .ok (value, rest)) :
    ∃ piece left raw, '[' :: text = piece ++ left ∧ rest = encode left ∧ Denotes piece raw ∧
      Json.ofValue raw = value := by
  obtain ⟨before, afterSpace, rfl, hbefore, hspace⟩ := whitespace_sound text
  rw [array, encode_ascii_cons (by decide), List.tail_cons, hspace] at h
  split at h
  · next hclose =>
    cases h
    obtain ⟨left, rfl, rfl⟩ := exists_left_of_head (by decide) (take_eq_some.mp hclose)
    refine ⟨'[' :: (before ++ [']']), left, .array [], ?_, rfl, .emptyArray hbefore, rfl⟩
    simp only [List.append_assoc, List.cons_append, List.nil_append]
  · obtain ⟨piece, left, items, rfl, hrest, hitems, rfl⟩ := values_sound hread h
    refine ⟨'[' :: (before ++ piece ++ [']']), left, .array items, ?_, hrest, .array ?_, rfl⟩
    · simp only [List.append_assoc, List.cons_append, List.nil_append]
    · exact hitems.append_blank hbefore

theorem key_sound {text : List Char} {name : String} {rest : Bytes}
    (h : key size (whitespace (encode text)) = .ok (name, rest)) :
    ∃ piece left, text = piece ++ ':' :: left ∧ rest = encode left ∧ IsName piece name := by
  obtain ⟨before, afterSpace, rfl, hbefore, hspace⟩ := whitespace_sound text
  rw [hspace, key, ensure_bind_ok_iff, bind_ok_iff] at h
  obtain ⟨hquote, ⟨found, afterString⟩, hstring, h⟩ := h
  obtain ⟨byte, after, hbytes⟩ : ∃ byte after, encode afterSpace = byte :: after := by
    apply List.exists_cons_of_ne_nil
    intro hnil
    rw [hnil] at hquote
    cases hquote
  rw [hbytes, List.head?_cons, Option.some.injEq] at hquote
  obtain ⟨left, rfl, -⟩ := exists_left_of_head (by decide) (hquote ▸ hbytes)
  obtain ⟨piece, afterPiece, hpiece, rfl, hname⟩ := string_sound hstring
  obtain ⟨after, left, rfl, hafter, hleft⟩ := whitespace_sound afterPiece
  dsimp only at h
  rw [hleft] at h
  split at h
  · next hcolon =>
    cases h
    obtain ⟨left, rfl, rfl⟩ := exists_left_of_head (by decide) (take_eq_some.mp hcolon)
    refine ⟨before ++ (piece ++ after), left, ?_, rfl, before, piece, after, hbefore, hname, hafter, rfl⟩
    rw [hpiece]
    simp only [List.append_assoc]
  · cases h

theorem entries_sound (hread : Sound read) {rounds : Nat} {text : List Char}
    {parsed : List (String × Json)} {value : Json} {rest : Bytes}
    (h : entries size read rounds (encode text) parsed = .ok (value, rest)) :
    ∃ piece left fields, text = piece ++ '\x7d' :: left ∧ rest = encode left ∧
      DenotesFields piece fields ∧ value = .object (Json.ofFields parsed fields) := by
  induction rounds generalizing text parsed with
  | zero =>
    rw [entries] at h
    cases h
  | succ rounds ih =>
    rw [entries, bind_ok_iff] at h
    obtain ⟨⟨name, afterName⟩, hname, h⟩ := h
    obtain ⟨nameText, afterColon, rfl, rfl, hisName⟩ := key_sound hname
    obtain ⟨before, afterSpace, rfl, hbefore, hspace⟩ := whitespace_sound afterColon
    dsimp only at h
    rw [hspace, bind_ok_iff] at h
    obtain ⟨⟨item, afterItem⟩, hitem, h⟩ := h
    obtain ⟨piece, afterPiece, raw, rfl, rfl, hpiece, rfl⟩ := hread hitem
    obtain ⟨after, left, rfl, hafter, hleft⟩ := whitespace_sound afterPiece
    dsimp only at h
    rw [hleft] at h
    split at h
    · next hclose =>
      cases h
      obtain ⟨left, rfl, rfl⟩ := exists_left_of_head (by decide) (take_eq_some.mp hclose)
      refine ⟨nameText ++ ':' :: (before ++ (piece ++ after)), left, [(name, raw)], ?_, rfl,
        .last hisName hbefore hpiece hafter, rfl⟩
      simp only [List.append_assoc, List.cons_append]
    · split at h
      · next hcomma =>
        obtain ⟨left, rfl, rfl⟩ := exists_left_of_head (by decide) (take_eq_some.mp hcomma)
        obtain ⟨more, left, fields, rfl, hrest, hfields, hvalue⟩ := ih h
        refine ⟨nameText ++ ':' :: (before ++ (piece ++ (after ++ ',' :: more))), left,
          (name, raw) :: fields, ?_, hrest, .cons hisName hbefore hpiece hafter hfields, hvalue⟩
        simp only [List.append_assoc, List.cons_append]
      · cases h

theorem object_sound (hread : Sound read) {text : List Char} {value : Json} {rest : Bytes}
    (h : object size read (encode ('\x7b' :: text)) = .ok (value, rest)) :
    ∃ piece left raw, '\x7b' :: text = piece ++ left ∧ rest = encode left ∧ Denotes piece raw ∧
      Json.ofValue raw = value := by
  obtain ⟨before, afterSpace, rfl, hbefore, hspace⟩ := whitespace_sound text
  rw [object, encode_ascii_cons (by decide), List.tail_cons, hspace] at h
  split at h
  · next hclose =>
    cases h
    obtain ⟨left, rfl, rfl⟩ := exists_left_of_head (by decide) (take_eq_some.mp hclose)
    refine ⟨'\x7b' :: (before ++ ['\x7d']), left, .object [], ?_, rfl, .emptyObject hbefore, rfl⟩
    simp only [List.append_assoc, List.cons_append, List.nil_append]
  · obtain ⟨piece, left, fields, rfl, hrest, hfields, rfl⟩ := entries_sound hread h
    refine ⟨'\x7b' :: (before ++ piece ++ ['\x7d']), left, .object fields, ?_, hrest, .object ?_, rfl⟩
    · simp only [List.append_assoc, List.cons_append, List.nil_append]
    · exact hfields.append_blank hbefore

end

theorem value_sound (depth : Nat) : Sound (value size depth) := by
  induction depth with
  | zero =>
    intro text result rest h
    rw [value] at h
    cases h
  | succ depth ih =>
    intro text result rest h
    have hliteral : ∀ {name : String} {raw : Value} {parsed : Json}, Denotes name.toList raw →
        Json.ofValue raw = parsed →
        (literal size name (encode text) >>= fun rest => .ok (parsed, rest)) = .ok (result, rest) →
        ∃ piece left raw, text = piece ++ left ∧ rest = encode left ∧ Denotes piece raw ∧
          Json.ofValue raw = result := by
      intro name raw parsed hraw hparsed hok
      rw [bind_ok_iff] at hok
      obtain ⟨after, hafter, hok⟩ := hok
      cases hok
      obtain ⟨left, rfl, hleft⟩ := exists_left_of_encode (literal_sound hafter)
      exact ⟨name.toList, left, raw, rfl, hleft, hraw, hparsed⟩
    cases hbytes : encode text with
    | nil =>
      rw [hbytes, value] at h
      cases h
    | cons byte after =>
      rw [hbytes, value] at h
      dsimp only at h
      rw [← hbytes] at h
      split at h
      · exact hliteral .litNull rfl h
      split at h
      · exact hliteral .litTrue rfl h
      split at h
      · exact hliteral .litFalse rfl h
      split at h
      · next hquote =>
        obtain ⟨left, rfl, -⟩ := exists_left_of_head (by decide) (hquote ▸ hbytes)
        rw [bind_ok_iff] at h
        obtain ⟨⟨s, afterString⟩, hstring, h⟩ := h
        cases h
        obtain ⟨piece, left, hpiece, hrest, hs⟩ := string_sound hstring
        exact ⟨piece, left, .string s, hpiece, hrest, .string hs, rfl⟩
      split at h
      · next hopen =>
        obtain ⟨left, rfl, -⟩ := exists_left_of_head (by decide) (hopen ▸ hbytes)
        exact array_sound ih h
      split at h
      · next hopen =>
        obtain ⟨left, rfl, -⟩ := exists_left_of_head (by decide) (hopen ▸ hbytes)
        exact object_sound ih h
      split at h
      · rw [bind_ok_iff] at h
        obtain ⟨⟨lexeme, afterNumber⟩, hnumber, h⟩ := h
        cases h
        obtain ⟨hlexeme, hsplit⟩ := number_sound hnumber
        obtain ⟨left, rfl, hleft⟩ := exists_left_of_encode hsplit
        let n : Number := ⟨lexeme.toList, isNumeric_of_isNumber hlexeme⟩
        refine ⟨lexeme.toList, left, .number n, rfl, hleft, Denotes.number (n := n) hlexeme, ?_⟩
        rw [Json.ofValue, String.ofList_toList]
      · cases h

/-! ## Completeness -/

theorem literal_complete (text : String) (rest : Bytes) :
    literal size text (encode text.toList ++ rest) = .ok rest := by
  rw [literal, List.take_left, if_pos rfl, List.drop_left]

theorem stops_nil : Stops [] := ⟨rfl, nofun, nofun, nofun⟩

theorem stops_comma (rest : Bytes) : Stops (ascii ',' :: rest) :=
  ⟨rfl, fun h => absurd (Option.some.inj h) (by decide), fun h => absurd (Option.some.inj h) (by decide),
    fun h => absurd (Option.some.inj h) (by decide)⟩

theorem stops_bracket (rest : Bytes) : Stops (ascii ']' :: rest) :=
  ⟨rfl, fun h => absurd (Option.some.inj h) (by decide), fun h => absurd (Option.some.inj h) (by decide),
    fun h => absurd (Option.some.inj h) (by decide)⟩

theorem stops_brace (rest : Bytes) : Stops (ascii '\x7d' :: rest) :=
  ⟨rfl, fun h => absurd (Option.some.inj h) (by decide), fun h => absurd (Option.some.inj h) (by decide),
    fun h => absurd (Option.some.inj h) (by decide)⟩

theorem stops_blank {space : List Char} {rest : Bytes} (hspace : Blank space) (hrest : Stops rest) :
    Stops (encode space ++ rest) := by
  cases space with
  | nil => exact hrest
  | cons c space =>
    have hc := hspace c List.mem_cons_self
    rw [encode_ascii_cons (isSpace_ascii hc).1]
    simp only [isJsonSpace, Bool.or_eq_true, beq_iff_eq] at hc
    refine ⟨?_, fun h => ?_, fun h => ?_, fun h => ?_⟩
    · rcases hc with ((rfl | rfl) | rfl) | rfl <;> rfl
    all_goals
      have h := Option.some.inj h
      rcases hc with ((rfl | rfl) | rfl) | rfl <;> exact absurd h (by decide)

theorem byte_of_startsValue {c : Char} (h : startsValue c = true) :
    c.toNat < 128 ∧ isSpace (ascii c) = false ∧ ascii c ≠ ascii ']' := by
  have hlt : c.toNat < 128 := by
    simp only [startsValue, Bool.or_eq_true, beq_iff_eq] at h
    rcases h with ((((((rfl | rfl) | rfl) | rfl) | rfl) | rfl) | rfl) | hdigit
    all_goals first | decide | exact Nat.lt_of_le_of_lt (bound_of_char_isDigit hdigit).2 (by decide)
  have hall : ∀ k < 128, startsValue (Char.ofNat k) = true →
      isSpace (UInt8.ofNat k) = false ∧ UInt8.ofNat k ≠ ascii ']' := by decide +kernel
  exact ⟨hlt, hall c.toNat hlt (by rwa [Char.ofNat_toNat])⟩

/-- White space ends where a value begins. -/
theorem whitespace_value {space text : List Char} {raw : Value} (hspace : Blank space)
    (h : Denotes text raw) (rest : Bytes) :
    whitespace (encode space ++ (encode text ++ rest)) = encode text ++ rest := by
  obtain ⟨c, tail, rfl, hc⟩ := h.exists_cons
  obtain ⟨hlt, hbyte, -⟩ := byte_of_startsValue hc
  apply whitespace_complete hspace
  rw [encode_ascii_cons hlt]
  exact hbyte

/-- A reader finds the values of texts up to a length. -/
def Complete (bound : Nat) (read : Bytes → Except String (Json × Bytes)) : Prop :=
  ∀ {text : List Char} {raw : Value} {rest : Bytes}, Denotes text raw → (encode text).length ≤ bound →
    Stops rest → read (encode text ++ rest) = .ok (Json.ofValue raw, rest)

section

variable {read : Bytes → Except String (Json × Bytes)} {bound : Nat}

theorem values_last (hread : Complete bound read) {before text after : List Char} {raw : Value}
    (hbefore : Blank before) (h : Denotes text raw) (hafter : Blank after)
    (hbound : (encode text).length ≤ bound) (rounds : Nat) (parsed : List Json) (rest : Bytes) :
    values size read (rounds + 1) (encode (before ++ (text ++ after)) ++ ascii ']' :: rest) parsed =
      .ok (.array (parsed ++ [Json.ofValue raw]), rest) := by
  simp only [encode_append, List.append_assoc]
  rw [values, whitespace_value hbefore h,
    hread h hbound (stops_blank hafter (stops_bracket rest))]
  dsimp only [bind, Except.bind]
  rw [whitespace_complete hafter rfl, take_eq_some.mpr rfl]

theorem values_cons (hread : Complete bound read) {before text after more : List Char} {raw : Value}
    (hbefore : Blank before) (h : Denotes text raw) (hafter : Blank after)
    (hbound : (encode text).length ≤ bound) (rounds : Nat) (parsed : List Json) (rest : Bytes) :
    values size read (rounds + 1) (encode (before ++ (text ++ (after ++ ',' :: more))) ++ rest) parsed =
      values size read rounds (encode more ++ rest) (parsed ++ [Json.ofValue raw]) := by
  have hcomma : encode (',' :: more) = ascii ',' :: encode more := encode_ascii_cons (by decide) more
  simp only [encode_append, List.append_assoc, hcomma, List.cons_append]
  rw [values, whitespace_value hbefore h,
    hread h hbound (stops_blank hafter (stops_comma (encode more ++ rest)))]
  dsimp only [bind, Except.bind]
  rw [whitespace_complete hafter rfl, take_of_ne (by decide), take_eq_some.mpr rfl]

theorem values_complete (hread : Complete bound read) {rounds : Nat} {text : List Char}
    {items : List Value} (h : DenotesItems text items) (hbound : (encode text).length ≤ bound)
    (hrounds : (encode text).length < rounds) (parsed : List Json) (rest : Bytes) :
    values size read rounds (encode text ++ ascii ']' :: rest) parsed =
      .ok (.array (parsed ++ Json.ofItems items), rest) := by
  induction rounds generalizing text items parsed with
  | zero => exact absurd hrounds (Nat.not_lt_zero _)
  | succ rounds ih =>
    cases h with
    | last hbefore h hafter =>
      simp only [encode_append, List.length_append] at hbound
      exact values_last hread hbefore h hafter (by omega) rounds parsed rest
    | @cons before piece after more item items hbefore h hafter hrest =>
      have hcomma : encode (',' :: more) = ascii ',' :: encode more := encode_ascii_cons (by decide) more
      simp only [encode_append, List.length_append, hcomma, List.length_cons] at hbound hrounds
      rw [values_cons hread hbefore h hafter (by omega), ih hrest (by omega) (by omega),
        List.append_assoc]
      rfl

/-- What is in brackets, with the white space before it. -/
theorem tail_encode_closed {first last : Char} (hfirst : first.toNat < 128) (hlast : last.toNat < 128)
    (space text : List Char) (rest : Bytes) :
    (encode (first :: (space ++ text ++ [last])) ++ rest).tail =
      encode space ++ (encode text ++ ascii last :: rest) := by
  have hclosed : encode [last] = [ascii last] := encode_ascii_cons hlast []
  rw [encode_ascii_cons hfirst, encode_append, encode_append, hclosed]
  simp only [List.append_assoc, List.cons_append, List.tail_cons, List.nil_append]

theorem array_complete (hread : Complete bound read) {text : List Char} {items : List Value}
    (h : DenotesItems text items) (hbound : (encode text).length ≤ bound) (rest : Bytes) :
    array size read (encode ('[' :: (text ++ [']'])) ++ rest) =
      .ok (.array (Json.ofItems items), rest) := by
  obtain ⟨space, c, tail, rfl, hspace, hc, hitems⟩ := h.strip
  obtain ⟨hlt, hblank, hclose⟩ := byte_of_startsValue hc
  have hhead : (encode (c :: tail) ++ ascii ']' :: rest).head? = some (ascii c) := by
    rw [encode_ascii_cons hlt]
    rfl
  rw [encode_append, List.length_append] at hbound
  rw [array, tail_encode_closed (by decide) (by decide),
    whitespace_complete hspace (by rw [hhead]; exact hblank),
    take_eq_none (by rw [hhead]; exact fun h => hclose (Option.some.inj h)),
    values_complete hread hitems (by omega)]
  · rfl
  · rw [List.length_append, List.length_cons]
    omega

theorem key_complete {text : List Char} {name : String} (h : IsName text name) (rest : Bytes) :
    key size (whitespace (encode text ++ ascii ':' :: rest)) = .ok (name, rest) := by
  obtain ⟨before, body, after, hbefore, hbody, hafter, rfl⟩ := h
  have hhead : (encode body ++ (encode after ++ ascii ':' :: rest)).head? = some (ascii '\x22') := by
    obtain ⟨chars, -, rfl⟩ := hbody
    rfl
  simp only [encode_append, List.append_assoc]
  rw [whitespace_complete hbefore (by rw [hhead]; rfl), key, hhead, ensure, if_pos rfl]
  show (string size _ >>= _) = _
  rw [string_complete hbody]
  dsimp only [bind, Except.bind]
  rw [whitespace_complete hafter rfl, take_eq_some.mpr rfl]

theorem entries_last (hread : Complete bound read) {name before text after : List Char} {key : String}
    {raw : Value} (hname : IsName name key) (hbefore : Blank before) (h : Denotes text raw)
    (hafter : Blank after) (hbound : (encode text).length ≤ bound) (rounds : Nat)
    (parsed : List (String × Json)) (rest : Bytes) :
    entries size read (rounds + 1)
        (encode (name ++ ':' :: (before ++ (text ++ after))) ++ ascii '\x7d' :: rest) parsed =
      .ok (.object (Table.insertEntry key (Json.ofValue raw) parsed), rest) := by
  have hcolon : ∀ tail, encode (':' :: tail) = ascii ':' :: encode tail :=
    encode_ascii_cons (by decide)
  simp only [encode_append, List.append_assoc, hcolon, List.cons_append]
  rw [entries, key_complete hname]
  show (read (whitespace _) >>= _) = _
  rw [whitespace_value hbefore h, hread h hbound (stops_blank hafter (stops_brace rest))]
  dsimp only [bind, Except.bind]
  rw [whitespace_complete hafter rfl, take_eq_some.mpr rfl]

theorem entries_cons (hread : Complete bound read) {name before text after more : List Char}
    {key : String} {raw : Value} (hname : IsName name key) (hbefore : Blank before)
    (h : Denotes text raw) (hafter : Blank after) (hbound : (encode text).length ≤ bound) (rounds : Nat)
    (parsed : List (String × Json)) (rest : Bytes) :
    entries size read (rounds + 1)
        (encode (name ++ ':' :: (before ++ (text ++ (after ++ ',' :: more)))) ++ rest) parsed =
      entries size read rounds (encode more ++ rest)
        (Table.insertEntry key (Json.ofValue raw) parsed) := by
  have hcolon : ∀ tail, encode (':' :: tail) = ascii ':' :: encode tail :=
    encode_ascii_cons (by decide)
  have hcomma : encode (',' :: more) = ascii ',' :: encode more := encode_ascii_cons (by decide) more
  simp only [encode_append, List.append_assoc, hcolon, hcomma, List.cons_append]
  rw [entries, key_complete hname]
  show (read (whitespace _) >>= _) = _
  rw [whitespace_value hbefore h, hread h hbound (stops_blank hafter (stops_comma (encode more ++ rest)))]
  dsimp only [bind, Except.bind]
  rw [whitespace_complete hafter rfl, take_of_ne (by decide), take_eq_some.mpr rfl]

theorem entries_complete (hread : Complete bound read) {rounds : Nat} {text : List Char}
    {fields : Fields} (h : DenotesFields text fields) (hbound : (encode text).length ≤ bound)
    (hrounds : (encode text).length < rounds) (parsed : List (String × Json)) (rest : Bytes) :
    entries size read rounds (encode text ++ ascii '\x7d' :: rest) parsed =
      .ok (.object (Json.ofFields parsed fields), rest) := by
  induction rounds generalizing text fields parsed with
  | zero => exact absurd hrounds (Nat.not_lt_zero _)
  | succ rounds ih =>
    have hcolon : ∀ tail, encode (':' :: tail) = ascii ':' :: encode tail :=
      encode_ascii_cons (by decide)
    cases h with
    | last hname hbefore h hafter =>
      simp only [encode_append, List.length_append, hcolon, List.length_cons] at hbound
      exact entries_last hread hname hbefore h hafter (by omega) rounds parsed rest
    | @cons name before piece after more key item fields hname hbefore h hafter hrest =>
      have hcomma : encode (',' :: more) = ascii ',' :: encode more := encode_ascii_cons (by decide) more
      simp only [encode_append, List.length_append, hcolon, hcomma, List.length_cons] at hbound hrounds
      rw [entries_cons hread hname hbefore h hafter (by omega), ih hrest (by omega) (by omega)]
      rfl

theorem object_complete (hread : Complete bound read) {text : List Char} {fields : Fields}
    (h : DenotesFields text fields) (hbound : (encode text).length ≤ bound) (rest : Bytes) :
    object size read (encode ('\x7b' :: (text ++ ['\x7d'])) ++ rest) =
      .ok (.object (Json.ofFields [] fields), rest) := by
  obtain ⟨space, tail, rfl, hspace, hfields⟩ := h.strip
  have hhead : (encode ('\x22' :: tail) ++ ascii '\x7d' :: rest).head? = some (ascii '\x22') := rfl
  rw [encode_append, List.length_append] at hbound
  rw [object, tail_encode_closed (by decide) (by decide),
    whitespace_complete hspace (by rw [hhead]; rfl),
    take_eq_none (by rw [hhead]; exact fun h => absurd (Option.some.inj h) (by decide)),
    entries_complete hread hfields (by omega)]
  rw [List.length_append, List.length_cons]
  omega

theorem emptyArray_complete {space : List Char} (hspace : Blank space) (rest : Bytes) :
    array size read (encode ('[' :: (space ++ [']'])) ++ rest) = .ok (.array [], rest) := by
  have hbytes := tail_encode_closed (show '['.toNat < 128 by decide) (show ']'.toNat < 128 by decide)
    space [] rest
  rw [List.append_nil] at hbytes
  rw [array, hbytes, encode_nil, List.nil_append, whitespace_complete hspace rfl, take_eq_some.mpr rfl]

theorem emptyObject_complete {space : List Char} (hspace : Blank space) (rest : Bytes) :
    object size read (encode ('\x7b' :: (space ++ ['\x7d'])) ++ rest) = .ok (.object [], rest) := by
  have hbytes := tail_encode_closed (show '\x7b'.toNat < 128 by decide)
    (show '\x7d'.toNat < 128 by decide) space [] rest
  rw [List.append_nil] at hbytes
  rw [object, hbytes, encode_nil, List.nil_append, whitespace_complete hspace rfl, take_eq_some.mpr rfl]

end

/-- A number is told from the other values by its first byte. -/
theorem value_number {text : List Char} (h : IsNumber text) (depth : Nat) (rest : Bytes) :
    value size (depth + 1) (encode text ++ rest) =
      number size (encode text ++ rest) >>= fun (lexeme, rest) => .ok (.number lexeme, rest) := by
  obtain ⟨c, tail, rfl, hc, -⟩ := h.exists_cons
  have hbyte : c.toNat < 128 ∧ (ascii c = ascii '-' ∨ isDigit (ascii c) = true) := by
    rcases hc with rfl | hdigit
    · exact ⟨by decide, .inl rfl⟩
    · exact ⟨Nat.lt_of_le_of_lt (bound_of_char_isDigit hdigit).2 (by decide),
        .inr (isDigit_ascii hdigit)⟩
  have hne : ∀ {other : Char}, ascii other ≠ ascii '-' → isDigit (ascii other) = false →
      ascii c ≠ ascii other := by
    intro other hminus hdigit heq
    rcases hbyte.2 with hc | hc
    · exact hminus (heq.symm.trans hc)
    · rw [heq, hdigit] at hc
      cases hc
  rw [encode_ascii_cons hbyte.1, List.cons_append, value]
  dsimp only
  rw [if_neg (hne (by decide) (by decide)), if_neg (hne (by decide) (by decide)),
    if_neg (hne (by decide) (by decide)), if_neg (hne (by decide) (by decide)),
    if_neg (hne (by decide) (by decide)), if_neg (hne (by decide) (by decide)), if_pos hbyte.2]

theorem value_complete (depth : Nat) : Complete depth (value size depth) := by
  induction depth with
  | zero =>
    intro text raw rest h hbound hrest
    obtain ⟨c, tail, rfl, hc⟩ := h.exists_cons
    rw [encode_ascii_cons (byte_of_startsValue hc).1] at hbound
    cases hbound
  | succ depth ih =>
    intro text raw rest h hbound hrest
    cases h with
    | litNull =>
      have hvalue : value size (depth + 1) (encode "null".toList ++ rest) =
          literal size "null" (encode "null".toList ++ rest) >>= fun rest => .ok (.null, rest) := rfl
      rw [hvalue, literal_complete]
      rfl
    | litTrue =>
      have hvalue : value size (depth + 1) (encode "true".toList ++ rest) =
          literal size "true" (encode "true".toList ++ rest) >>= fun rest => .ok (.bool true, rest) := rfl
      rw [hvalue, literal_complete]
      rfl
    | litFalse =>
      have hvalue : value size (depth + 1) (encode "false".toList ++ rest) =
          literal size "false" (encode "false".toList ++ rest) >>= fun rest => .ok (.bool false, rest) := rfl
      rw [hvalue, literal_complete]
      rfl
    | number h =>
      rw [value_number h, number_complete h hrest]
      rfl
    | string h =>
      have hvalue : value size (depth + 1) (encode text ++ rest) =
          string size (encode text ++ rest) >>= fun (text, rest) => .ok (.string text, rest) := by
        obtain ⟨body, -, rfl⟩ := h
        rfl
      rw [hvalue, string_complete h]
      rfl
    | emptyArray hspace => exact emptyArray_complete hspace rest
    | emptyObject hspace => exact emptyObject_complete hspace rest
    | array h =>
      rw [encode_ascii_cons (by decide), encode_append, List.length_cons, List.length_append] at hbound
      exact array_complete ih h (by omega) rest
    | object h =>
      rw [encode_ascii_cons (by decide), encode_append, List.length_cons, List.length_append] at hbound
      exact object_complete ih h (by omega) rest

/-- The parser returns the values in JSON texts, and no others. -/
theorem parse_eq_ok_iff {text : List Char} {value : Json} :
    parse text = .ok value ↔ ∃ raw, IsJsonText text raw ∧ Json.ofValue raw = value := by
  constructor
  · intro h
    obtain ⟨before, afterSpace, rfl, hbefore, hspace⟩ := whitespace_sound text
    rw [parse] at h
    dsimp only at h
    rw [hspace, bind_ok_iff] at h
    obtain ⟨⟨result, afterValue⟩, hvalue, h⟩ := h
    obtain ⟨piece, left, raw, rfl, rfl, hraw, rfl⟩ := value_sound _ hvalue
    obtain ⟨after, rest, rfl, hafter, hrest⟩ := whitespace_sound left
    dsimp only at h
    rw [hrest] at h
    split at h
    · next hempty =>
      cases h
      rw [List.isEmpty_iff, ← encode_nil, encode_inj] at hempty
      exact ⟨raw, ⟨before, piece, after, hbefore, hraw, hafter, by rw [hempty, List.append_nil]⟩, rfl⟩
    · cases h
  · rintro ⟨raw, ⟨before, body, after, hbefore, hraw, hafter, rfl⟩, rfl⟩
    have hend : whitespace (encode after) = [] := by
      have hblank : whitespace (encode after ++ []) = [] := whitespace_complete hafter rfl
      rwa [List.append_nil] at hblank
    have hstops : Stops (encode after) := by
      have hblank := stops_blank hafter stops_nil
      rwa [List.append_nil] at hblank
    rw [parse]
    simp only [encode_append]
    rw [whitespace_value hbefore hraw, value_complete _ hraw _ hstops]
    · show (if (whitespace (encode after)).isEmpty = true then _ else _) = _
      rw [hend]
      rfl
    · rw [List.length_append]
      omega

end Parser

end Tally.Driver
