import Tally.Flow.Export
import Tally.Lib.Ascii

/-!
# Flow sources

The source of a flow as ECMAScript divides it into lexical elements, with the one declaration of its
`meta`. `strip_meta_export` blanks the `export` of that declaration exactly where what stands before it
is read flatly (`strip_exact_iff`). It is, as long as there are only names other than `export`,
punctuators, strings, templates that hold no other template, and comments that end with a line feed; a
regular expression may misguide it (`LexicalSample.regex_hides_export`), and so may a property that is
named `export`.
-/

namespace Tally.Flow

open Tally.Lib

/-! ## Lexical elements -/

/-- The elements of a source. A template with substitutions is divided at them: `templateStart` ends
and `templateMiddle` starts and ends at a substitution, and `templateEnd` ends the template. Of a
punctuator each character is an element. -/
inductive Element
  | space (text : List Char)
  | punctuator (c : Char)
  | name (text : List Char)
  | string (mark : Char) (body : List Char)
  | template (body : List Char)
  | templateStart (body : List Char)
  | templateMiddle (body : List Char)
  | templateEnd (body : List Char)
  | lineComment (body : List Char)
  | blockComment (body : List Char)
  | regex (body flags : List Char)
  | hashbang (body : List Char)
  deriving DecidableEq

def isLineTerminator (c : Char) : Bool :=
  c == '\n' || c == '\r' || c.toNat == 0x2028 || c.toNat == 0x2029

def isSourceSpace (c : Char) : Bool :=
  isLineTerminator c || c == '\t' || c == ' ' || c.toNat == 0xb || c.toNat == 0xc ||
    c.toNat == 0xa0 || c.toNat == 0xfeff || c.toNat == 0x1680 ||
    (0x2000 ≤ c.toNat && c.toNat ≤ 0x200a) || c.toNat == 0x202f || c.toNat == 0x205f ||
    c.toNat == 0x3000

def punctuators : List Char := "\x7b\x7d()[];,<>=!+-*%&|^~?:.@#/".toList

/-- A character of a name, a keyword or a number; a name may be written with escapes. -/
def isNameChar (c : Char) : Bool :=
  c.isAlphanum || c == '_' || c == '$' || c == '\x5c' ||
    (decide (128 ≤ c.toNat) && !isSourceSpace c)

/-- Text in which no character is one of the stops unless it is escaped. A backslash escapes one character,
or the two of a line ending. -/
def unbroken (stop : Char → Bool) : List Char → Bool
  | [] => true
  | [c] => c != '\x5c' && !stop c
  | [c, next] => if c = '\x5c' then true else !stop c && unbroken stop [next]
  | c :: next :: third :: rest =>
    if c = '\x5c' then
      if next = '\r' ∧ third = '\n' then unbroken stop rest else unbroken stop (third :: rest)
    else !stop c && unbroken stop (next :: third :: rest)

/-- Text of a template: a substitution does not begin in it. -/
def isTemplateText : List Char → Bool
  | [] => true
  | [c] => c != '\x5c' && c != '\x60'
  | c :: next :: rest =>
    if c = '\x5c' then isTemplateText rest
    else c != '\x60' && !(c == '$' && next == '\x7b') && isTemplateText (next :: rest)

/-- Text of a regular expression, in or outside of a class. -/
def isRegexText : Bool → List Char → Bool
  | inClass, [] => !inClass
  | inClass, [c] => c != '\x5c' && !isLineTerminator c && (if inClass then c == ']' else c != '/' && c != '[')
  | inClass, c :: next :: rest =>
    !isLineTerminator c &&
      if c = '\x5c' then !isLineTerminator next && isRegexText inClass rest
      else if inClass then isRegexText (c != ']') (next :: rest)
      else c != '/' && isRegexText (c == '[') (next :: rest)

namespace Element

def text : Element → List Char
  | space text => text
  | punctuator c => [c]
  | name text => text
  | string mark body => mark :: (body ++ [mark])
  | template body => '\x60' :: (body ++ ['\x60'])
  | templateStart body => '\x60' :: (body ++ ['$', '\x7b'])
  | templateMiddle body => '\x7d' :: (body ++ ['$', '\x7b'])
  | templateEnd body => '\x7d' :: (body ++ ['\x60'])
  | lineComment body => '/' :: '/' :: body
  | blockComment body => '/' :: '*' :: (body ++ ['*', '/'])
  | regex body flags => '/' :: (body ++ '/' :: flags)
  | hashbang body => '#' :: '!' :: body

def valid : Element → Bool
  | space text => text != [] && text.all isSourceSpace
  | punctuator c => c ∈ punctuators
  | name text => text != [] && text.all isNameChar
  | string mark body =>
    (mark == '\x27' || mark == '\x22') &&
      unbroken (fun c => c == mark || c == '\n' || c == '\r') body
  | template body | templateStart body | templateMiddle body | templateEnd body =>
    isTemplateText body
  | lineComment body | hashbang body => body.all fun c => !isLineTerminator c
  | blockComment body => decide (¬ ['*', '/'] <:+: body)
  | regex body flags =>
    body != [] && body.head?.all (fun c => c != '*') && isRegexText false body &&
      flags.all isNameChar

/-- What may stand behind the element, so that it ends there. -/
def endsBefore (rest : List Char) : Element → Bool
  | name _ | regex _ _ => rest.head?.all fun c => !isNameChar c
  | punctuator c => c != '/' || rest.head?.all fun c => c != '/' && c != '*'
  | lineComment _ | hashbang _ => rest.head?.all isLineTerminator
  | _ => true

def isGap : Element → Bool
  | space _ | lineComment _ | blockComment _ => true
  | _ => false

/-- What the element adds to the depth of brackets. -/
def depth : Element → Int
  | punctuator c => if c ∈ "([\x7b".toList then 1 else if c ∈ ")]\x7d".toList then -1 else 0
  | templateStart _ => 1
  | templateEnd _ => -1
  | _ => 0

end Element

def textOf (elements : List Element) : List Char := elements.flatMap Element.text

/-- Each element ends where the next one begins, and a hashbang is the first one. -/
def separated : List Element → Bool
  | [] => true
  | element :: rest =>
    element.endsBefore (textOf rest) && separated rest &&
      rest.all fun | .hashbang _ => false | _ => true

/-- `export`, `const` and `meta`, with nothing but space and comments between them. -/
def declaresMeta : List Element → Bool
  | .name word :: rest =>
    word == "export".toList && match rest.dropWhile Element.isGap with
    | .name word :: rest =>
      word == "const".toList && (rest.dropWhile Element.isGap).head? == some (.name "meta".toList)
    | _ => false
  | _ => false

/-- The places of the declarations of `meta` at the top level. -/
def declarations : Int → Nat → List Element → List Nat
  | _, _, [] => []
  | depth, place, element :: rest =>
    let others := declarations (depth + element.depth) (place + 1) rest
    if depth = 0 ∧ declaresMeta (element :: rest) = true then place :: others else others

/-- A source that declares its `meta` once. -/
structure FlowSource where
  elements : List Element
  place : Nat
  valid : elements.all Element.valid = true
  separated : separated elements = true
  declared : declarations 0 0 elements = [place]

namespace FlowSource

variable (source : FlowSource)

def before : List Element := source.elements.take source.place

/-- The declaration and what follows it. -/
def after : List Element := source.elements.drop source.place

def text : String := String.ofList (textOf source.elements)

/-- The source with the `export` of the declaration blanked. -/
def script : String :=
  String.ofList (textOf source.before ++ List.replicate 6 ' ' ++ (textOf source.after).drop 6)

end FlowSource

/-! ## Characters and bytes -/

/-- A byte of an identifier is in ASCII, and starts nothing. -/
theorem identifierByte_spec {byte : UInt8} (h : identifierByte byte = true) :
    byte.toNat < 128 ∧ isQuote byte = false ∧ byte ≠ slash := by
  have hall : ∀ n < 256, identifierByte (UInt8.ofNat n) = true →
      n < 128 ∧ isQuote (UInt8.ofNat n) = false ∧ UInt8.ofNat n ≠ slash := by decide +kernel
  have := hall byte.toNat (UInt8.toNat_lt byte)
  rw [UInt8.ofNat_toNat] at this
  exact this h

theorem identifierByte_lt {byte : UInt8} (h : identifierByte byte = true) : byte.toNat < 128 :=
  (identifierByte_spec h).1

/-- What ASCII characters are as bytes. -/
theorem ascii_spec : ∀ n < 128,
    (isNameChar (Char.ofNat n) = false → identifierByte (UInt8.ofNat n) = false) ∧
      (isSourceSpace (Char.ofNat n) = true → isNameChar (Char.ofNat n) = false) ∧
      (((Char.ofNat n).isAlphanum || Char.ofNat n == '_' || Char.ofNat n == '$') = true →
        identifierByte (UInt8.ofNat n) = true) := by
  decide +kernel

/-- A character that is not of a name has no byte that is of an identifier. -/
theorem not_identifierByte {c : Char} {byte : UInt8} (hc : isNameChar c = false)
    (h : byte ∈ String.utf8EncodeChar c) : identifierByte byte = false := by
  by_contra hbyte
  rw [Bool.not_eq_false] at hbyte
  have hlt := identifierByte_lt hbyte
  have hnat := toNat_eq_of_mem_utf8EncodeChar hlt h
  have hfalse := (ascii_spec byte.toNat hlt).1 (by rwa [← hnat, Char.ofNat_toNat])
  rw [UInt8.ofNat_toNat, hbyte] at hfalse
  cases hfalse

theorem getLast?_encode_not_identifier {text : List Char}
    (h : text.getLast?.all (fun c => !isNameChar c) = true) :
    (encode text).getLast?.all (fun byte => !identifierByte byte) = true := by
  rcases List.eq_nil_or_concat' text with rfl | ⟨front, c, rfl⟩
  · rfl
  · rw [List.getLast?_concat, Option.all_some, Bool.not_eq_true'] at h
    have hsingle : encode [c] = String.utf8EncodeChar c := List.append_nil _
    rw [encode_append, hsingle, List.getLast?_append_of_ne_nil _ (utf8EncodeChar_ne_nil c),
      Option.all_eq_true]
    intro byte hbyte
    rw [Bool.not_eq_true']
    exact not_identifierByte h (List.mem_of_getLast? hbyte)

theorem toNat_lt_of_alphanum {c : Char} (h : c.isAlphanum = true) : c.toNat < 128 := by
  delta Char.isAlphanum Char.isAlpha Char.isUpper Char.isLower Char.isDigit at h
  simp only [Bool.or_eq_true, Bool.and_eq_true, decide_eq_true_eq, UInt32.le_iff_toNat_le] at h
  have htoNat : c.val.toNat = c.toNat := rfl
  rcases h with (h | h) | h
  all_goals
    have hle := h.2
    simp at hle
    omega

theorem isNameChar_of_space {c : Char} (h : isSourceSpace c = true) : isNameChar c = false := by
  rcases Nat.lt_or_ge c.toNat 128 with hlt | hge
  · have := (ascii_spec c.toNat hlt).2.1
    rw [Char.ofNat_toNat] at this
    exact this h
  · have hne : ∀ d : Char, d.toNat < 128 → (c == d) = false := by
      intro d hd
      refine beq_eq_false_iff_ne.mpr fun heq => ?_
      rw [heq] at hge
      omega
    have halnum : c.isAlphanum = false := by
      by_contra halnum
      rw [Bool.not_eq_false] at halnum
      have hlt := toNat_lt_of_alphanum halnum
      omega
    rw [isNameChar, halnum, hne '_' (by decide), hne '$' (by decide), hne '\x5c' (by decide), h]
    simp

theorem isSourceSpace_of_lineTerminator {c : Char} (h : isLineTerminator c = true) :
    isSourceSpace c = true := by
  rw [isSourceSpace, h]
  rfl

theorem head?_encode_not_identifier {text : List Char}
    (h : text.head?.all (fun c => !isNameChar c) = true) :
    (encode text).head?.all (fun byte => !identifierByte byte) = true := by
  cases text with
  | nil => rfl
  | cons c rest =>
    rw [List.head?_cons, Option.all_some, Bool.not_eq_true'] at h
    rw [encode, List.flatMap_cons, List.head?_append_of_ne_nil _ (utf8EncodeChar_ne_nil c),
      Option.all_eq_true]
    intro byte hbyte
    rw [Bool.not_eq_true']
    exact not_identifierByte h (List.mem_of_head? hbyte)

/-! ## The declaration -/

theorem declaration_of_mem {elements : List Element} {depth : Int} {n place : Nat}
    (h : place ∈ declarations depth n elements) :
    ∃ front rest, elements = front ++ .name "export".toList :: rest ∧ place = n + front.length := by
  induction elements generalizing depth n with
  | nil => cases h
  | cons element rest ih =>
    have hothers : place ∈ declarations (depth + element.depth) (n + 1) rest →
        ∃ front rest', element :: rest = front ++ .name "export".toList :: rest' ∧
          place = n + front.length := by
      intro hmem
      obtain ⟨front, rest', rfl, hplace⟩ := ih hmem
      refine ⟨element :: front, rest', rfl, ?_⟩
      rw [List.length_cons, hplace]
      omega
    rw [declarations] at h
    split at h
    next hdeclares =>
      rcases List.mem_cons.mp h with rfl | h
      · cases element with
        | name word =>
          have hword := (Bool.and_eq_true_iff.mp hdeclares.2).1
          rw [beq_iff_eq.mp hword]
          exact ⟨[], rest, rfl, rfl⟩
        | _ => cases hdeclares.2
      · exact hothers h
    · exact hothers h

theorem FlowSource.after_eq (source : FlowSource) :
    ∃ rest, source.after = .name "export".toList :: rest := by
  have hmem : source.place ∈ declarations 0 0 source.elements := by
    rw [source.declared]
    exact List.mem_singleton_self _
  obtain ⟨front, rest, helements, hplace⟩ := declaration_of_mem hmem
  refine ⟨rest, ?_⟩
  rw [FlowSource.after, helements, hplace, Nat.zero_add, List.drop_left]

theorem FlowSource.elements_eq (source : FlowSource) :
    source.elements = source.before ++ source.after :=
  (List.take_append_drop _ _).symm

theorem textOf_append (a b : List Element) : textOf (a ++ b) = textOf a ++ textOf b :=
  List.flatMap_append

/-- What is separated is separated from each place on. -/
theorem separated_append {a b : List Element} (h : separated (a ++ b) = true) :
    separated b = true := by
  induction a with
  | nil => exact h
  | cons element rest ih =>
    rw [List.cons_append, separated, Bool.and_eq_true, Bool.and_eq_true] at h
    exact ih h.1.2

theorem text_ne_nil {element : Element} (h : element.valid = true) : element.text ≠ [] := by
  cases element with
  | space text | name text =>
    rw [Element.valid, Bool.and_eq_true, bne_iff_ne] at h
    exact h.1
  | _ => exact List.cons_ne_nil _ _

/-- An element that a name follows does not end as a name. -/
theorem last_of_endsBefore {element : Element} {c : Char} {text : List Char}
    (hvalid : element.valid = true) (hends : element.endsBefore (c :: text) = true)
    (hc : isNameChar c = true) :
    element.text.getLast?.all (fun c => !isNameChar c) = true := by
  have hline : isLineTerminator c = false := by
    by_contra h
    rw [Bool.not_eq_false] at h
    rw [isNameChar_of_space (isSourceSpace_of_lineTerminator h)] at hc
    cases hc
  have hlast : ∀ (front : List Char) {c : Char}, isNameChar c = false →
      (front ++ [c]).getLast?.all (fun c => !isNameChar c) = true := by
    intro front c h
    rw [List.getLast?_concat, Option.all_some, h]
    rfl
  cases element with
  | space text =>
    rw [Option.all_eq_true]
    intro last hmem
    rw [Element.valid, Bool.and_eq_true, List.all_eq_true] at hvalid
    rw [isNameChar_of_space (hvalid.2 last (List.mem_of_getLast? hmem))]
    rfl
  | punctuator c =>
    have hall : punctuators.all (fun c => !isNameChar c) = true := by decide
    exact List.all_eq_true.mp hall c (of_decide_eq_true hvalid)
  | name text =>
    rw [Element.endsBefore, List.head?_cons, Option.all_some, hc] at hends
    cases hends
  | string mark body =>
    rw [Element.valid, Bool.and_eq_true, Bool.or_eq_true, beq_iff_eq, beq_iff_eq] at hvalid
    rcases hvalid.1 with rfl | rfl
    · exact hlast (_ :: body) (by decide)
    · exact hlast (_ :: body) (by decide)
  | template body => exact hlast (_ :: body) (by decide)
  | templateStart body =>
    rw [Element.text, List.append_cons]
    exact hlast (_ :: (body ++ ['$'])) (by decide)
  | templateMiddle body =>
    rw [Element.text, List.append_cons]
    exact hlast (_ :: (body ++ ['$'])) (by decide)
  | templateEnd body => exact hlast (_ :: body) (by decide)
  | lineComment body =>
    rw [Element.endsBefore, List.head?_cons, Option.all_some, hline] at hends
    cases hends
  | blockComment body =>
    rw [Element.text, List.append_cons]
    exact hlast (_ :: _ :: (body ++ ['*'])) (by decide)
  | regex body flags =>
    rw [Element.endsBefore, List.head?_cons, Option.all_some, hc] at hends
    cases hends
  | hashbang body =>
    rw [Element.endsBefore, List.head?_cons, Option.all_some, hline] at hends
    cases hends

/-- The element before a place ends there. -/
theorem endsBefore_of_separated {front rest : List Element} {element : Element}
    (h : separated (front ++ element :: rest) = true) : element.endsBefore (textOf rest) = true := by
  have h := separated_append h
  rw [separated, Bool.and_eq_true, Bool.and_eq_true] at h
  exact h.1.1

namespace FlowSource

variable (source : FlowSource)

/-- The word of the declaration stands free. -/
theorem standsFree_after :
    standsFree (encode (textOf source.before)).getLast? (encode (textOf source.after)) = true := by
  obtain ⟨rest, hafter⟩ := source.after_eq
  have hseparated := source.separated
  rw [source.elements_eq, hafter] at hseparated
  have htext : textOf source.after = "export".toList ++ textOf rest := by rw [hafter]; rfl
  rw [standsFree, Bool.and_eq_true, Bool.and_eq_true, htext, encode_append]
  refine ⟨⟨List.isPrefixOf_iff_prefix.mpr ⟨encode (textOf rest), rfl⟩, ?_⟩, ?_⟩
  · apply getLast?_encode_not_identifier
    rcases List.eq_nil_or_concat' source.before with hnil | ⟨front, element, hbefore⟩
    · rw [hnil]
      rfl
    · rw [hbefore, List.append_assoc] at hseparated
      have hends := endsBefore_of_separated hseparated
      have hvalid : element.valid = true := by
        refine List.all_eq_true.mp source.valid element ?_
        rw [source.elements_eq, hbefore]
        exact List.mem_append_left _ (List.mem_append_right _ List.mem_cons_self)
      have hlast := last_of_endsBefore hvalid hends (by decide)
      rw [hbefore, textOf_append]
      have hsingle : textOf [element] = element.text := List.append_nil _
      rw [hsingle]
      rwa [List.getLast?_append_of_ne_nil _ (text_ne_nil hvalid)]
  · have hends := endsBefore_of_separated hseparated
    have hhead : (encode "export".toList ++ encode (textOf rest))[6]? =
        (encode (textOf rest)).head? := by
      rw [List.getElem?_append_right (by decide)]
      exact List.head?_eq_getElem?.symm
    rw [hhead]
    exact head?_encode_not_identifier hends

/-- The bytes of the source, at the declaration. -/
theorem encode_text : ∃ rest, textOf source.after = "export".toList ++ rest ∧
    encode source.text.toList = encode (textOf source.before) ++ (exportWord ++ encode rest) := by
  obtain ⟨rest, hafter⟩ := source.after_eq
  have htext : textOf source.after = "export".toList ++ textOf rest := by rw [hafter]; rfl
  refine ⟨textOf rest, htext, ?_⟩
  rw [text, String.toList_ofList, source.elements_eq, textOf_append, encode_append, htext,
    encode_append]
  rfl

/-- The word of the declaration is blanked exactly where what stands before it is read flatly. -/
theorem strip_eq_script_iff :
    stripMetaExport source.text = .ok source.script ↔
      Flat none (encode source.text.toList) (encode (textOf source.after)) := by
  obtain ⟨rest, hafter, hbytes⟩ := source.encode_text
  have hword : encode (textOf source.after) = exportWord ++ encode rest := by
    rw [hafter, encode_append]
    rfl
  have hfree := source.standsFree_after
  have hblanked : blanked (encode source.text.toList) (encode (textOf source.before)).length =
      encode (textOf source.before ++ List.replicate 6 ' ' ++ rest) := by
    rw [hbytes, ← List.append_assoc, blanked_append, encode_append, encode_append]
    rfl
  have hscript : source.script =
      String.ofList (textOf source.before ++ List.replicate 6 ' ' ++ rest) := by
    rw [script, hafter]
    rfl
  have hfound := @findExport_eq_some_iff (encode (textOf source.before))
    (encode (textOf source.after))
  rw [hword, ← hbytes] at hfound
  rw [hword] at hfree ⊢
  constructor
  · intro h
    refine (hfound.mp ?_).1
    unfold stripMetaExport at h
    dsimp only at h
    split at h
    · cases h
    next k hk =>
      obtain ⟨middle, last, hsplit, rfl, -, hlast⟩ :=
        flat_of_found (List.nil_append (encode source.text.toList)).symm hk
      obtain ⟨tail, rfl⟩ := standsFree_cons hlast
      split at h
      next output hdecode =>
        rw [hscript, Except.ok.injEq, String.ofList_inj] at h
        have hsame := decode_eq_some_iff.mp hdecode
        rw [h, ← hblanked] at hsame
        rw [← List.append_assoc] at hsplit hbytes
        rw [List.nil_append] at hsame hk
        rw [hk, blanked_inj hsplit hbytes hsame]
      · cases h
  · intro h
    have hk := hfound.mpr ⟨h, hfree⟩
    unfold stripMetaExport
    dsimp only
    rw [hk]
    dsimp only
    rw [hblanked, decode_encode, hscript]

end FlowSource

/-! ## Elements that are read flatly -/

/-- A name that is not `export`, of ASCII letters, digits and the like. -/
def isPlainName (text : List Char) : Bool :=
  text != "export".toList && text.all fun c => c.isAlphanum || c == '_' || c == '$'

/-- The elements are read as they are: none is a regular expression or a hashbang, a name is plain, a
comment to the end of a line ends with a line feed, and a template holds no backtick that is not
escaped. Inside of a template only its end is waited for. -/
def readsFlat : Bool → List Element → Bool
  | inside, [] => !inside
  | false, element :: rest =>
    match element with
    | .name text => isPlainName text && readsFlat false rest
    | .lineComment _ => (textOf rest).head? == some '\n' && readsFlat false rest
    | .templateStart _ => readsFlat true rest
    | .templateMiddle _ | .templateEnd _ | .regex _ _ | .hashbang _ => false
    | _ => readsFlat false rest
  | true, element :: rest =>
    match element with
    | .templateEnd _ => readsFlat false rest
    | .template _ | .templateStart _ => false
    | element => closed 0x60 (encode element.text) && readsFlat true rest

variable {mark : UInt8} {body more rest : Bytes}

theorem closed_append {a b : Bytes} (ha : closed mark a = true) (hb : closed mark b = true) :
    closed mark (a ++ b) = true := by
  induction a using closed.induct with
  | case1 => exact hb
  | case2 byte =>
    rw [closed, Bool.and_eq_true, bne_iff_ne, bne_iff_ne] at ha
    exact closed_cons ha.1 ha.2 hb
  | case3 next rest ih =>
    rw [closed, if_pos rfl] at ha
    rw [List.cons_append, List.cons_append, closed, if_pos rfl]
    exact ih ha
  | case4 byte next rest hbyte ih =>
    rw [closed, if_neg hbyte, Bool.and_eq_true, bne_iff_ne] at ha
    exact closed_cons hbyte ha.1 (ih ha.2)

theorem closed_of_forall (h : ∀ byte ∈ body, byte ≠ backslash ∧ byte ≠ mark) :
    closed mark body = true := by
  induction body with
  | nil => rfl
  | cons byte rest ih =>
    have hbyte := h byte List.mem_cons_self
    exact closed_cons hbyte.1 hbyte.2 (ih fun other hother => h other (List.mem_cons_of_mem byte hother))

/-- A character that is neither an escape nor the mark goes through. -/
theorem closed_char {c : Char} (hmark : mark.toNat < 128) (hescape : c ≠ '\x5c')
    (hc : c.toNat ≠ mark.toNat) : closed mark (String.utf8EncodeChar c) = true := by
  apply closed_of_forall
  intro byte hbyte
  constructor
  · rintro rfl
    exact hescape (Char.toNat_inj.mp (toNat_eq_of_mem_utf8EncodeChar (by decide) hbyte))
  · rintro rfl
    exact hc (toNat_eq_of_mem_utf8EncodeChar hmark hbyte)

/-- An escaped character goes through. -/
theorem closed_escape (hmark : mark.toNat < 128) (c : Char) :
    closed mark (backslash :: String.utf8EncodeChar c) = true := by
  rcases Nat.lt_or_ge c.toNat 128 with hlt | hge
  · rw [encode_ascii hlt, closed, if_pos rfl, closed]
  · obtain ⟨first, tail, hfirst⟩ := List.exists_cons_of_ne_nil (utf8EncodeChar_ne_nil c)
    rw [hfirst, closed, if_pos rfl]
    apply closed_of_forall
    intro byte hbyte
    have hmem : byte ∈ String.utf8EncodeChar c := hfirst ▸ List.mem_cons_of_mem first hbyte
    constructor
    · rintro rfl
      have := toNat_eq_of_mem_utf8EncodeChar (by decide) hmem
      rw [this] at hge
      exact absurd hge (by decide)
    · rintro rfl
      have := toNat_eq_of_mem_utf8EncodeChar hmark hmem
      omega

theorem closed_escaped_append (hmark : mark.toNat < 128) (next : Char) {rest : List Char}
    (h : closed mark (encode rest) = true) : closed mark (encode ('\x5c' :: next :: rest)) = true := by
  have hsplit : encode ('\x5c' :: next :: rest) =
      (backslash :: String.utf8EncodeChar next) ++ encode rest := rfl
  rw [hsplit]
  exact closed_append (closed_escape hmark next) h

theorem closed_plain_append {c : Char} (hmark : mark.toNat < 128) (hescape : c ≠ '\x5c')
    (hc : c.toNat ≠ mark.toNat) {rest : List Char} (h : closed mark (encode rest) = true) :
    closed mark (encode (c :: rest)) = true := by
  have hsplit : encode (c :: rest) = String.utf8EncodeChar c ++ encode rest := rfl
  rw [hsplit]
  exact closed_append (closed_char hmark hescape hc) h

theorem closed_of_unbroken {stop : Char → Bool} (hmark : mark.toNat < 128)
    (hline : mark.toNat ≠ 10) (hstop : ∀ c, c.toNat = mark.toNat → stop c = true) {text : List Char}
    (h : unbroken stop text = true) : closed mark (encode text) = true := by
  have hplain : ∀ c, stop c = false → c.toNat ≠ mark.toNat := by
    intro c hc heq
    rw [hstop c heq] at hc
    cases hc
  induction text using unbroken.induct with
  | case1 => rfl
  | case2 c =>
    rw [unbroken, Bool.and_eq_true, bne_iff_ne, Bool.not_eq_true'] at h
    exact closed_plain_append hmark h.1 (hplain c h.2) rfl
  | case3 next => exact closed_escaped_append hmark next rfl
  | case4 c next hescape ih =>
    rw [unbroken, if_neg hescape, Bool.and_eq_true, Bool.not_eq_true'] at h
    exact closed_plain_append hmark hescape (hplain c h.1) (ih h.2)
  | case5 next third rest hending ih =>
    rw [unbroken, if_pos rfl, if_pos hending] at h
    rw [hending.2]
    have hlf : '\n'.toNat ≠ mark.toNat := hline.symm
    exact closed_escaped_append hmark next (closed_plain_append hmark (by decide) hlf (ih h))
  | case6 next third rest hending ih =>
    rw [unbroken, if_pos rfl, if_neg hending] at h
    exact closed_escaped_append hmark next (ih h)
  | case7 c next third rest hescape ih =>
    rw [unbroken, if_neg hescape, Bool.and_eq_true, Bool.not_eq_true'] at h
    exact closed_plain_append hmark hescape (hplain c h.1) (ih h.2)

theorem closed_of_isTemplateText {text : List Char} (h : isTemplateText text = true) :
    closed 0x60 (encode text) = true := by
  have hplain : ∀ c : Char, c ≠ '\x60' → c.toNat ≠ (0x60 : UInt8).toNat :=
    fun c hc heq => hc (Char.toNat_inj.mp heq)
  induction text using isTemplateText.induct with
  | case1 => rfl
  | case2 c =>
    rw [isTemplateText, Bool.and_eq_true, bne_iff_ne, bne_iff_ne] at h
    exact closed_plain_append (by decide) h.1 (hplain c h.2) rfl
  | case3 next rest ih =>
    rw [isTemplateText, if_pos rfl] at h
    exact closed_escaped_append (by decide) next (ih h)
  | case4 c next rest hescape ih =>
    rw [isTemplateText, if_neg hescape, Bool.and_eq_true, Bool.and_eq_true, bne_iff_ne] at h
    exact closed_plain_append (by decide) hescape (hplain c h.1.1) (ih h.2)

theorem withoutEnd_append {a b : Bytes} (ha : ∀ byte ∈ a, byte ≠ star) (hb : withoutEnd b = true) :
    withoutEnd (a ++ b) = true := by
  induction a with
  | nil => exact hb
  | cons byte rest ih =>
    refine withoutEnd_cons (fun h => ha byte List.mem_cons_self h.1) (ih fun other hother => ?_)
    exact ha other (List.mem_cons_of_mem byte hother)

/-- The end of a comment is its two characters. -/
theorem withoutEnd_encode {text : List Char} (h : ¬ ['*', '/'] <:+: text) :
    withoutEnd (encode text) = true := by
  induction text with
  | nil => rfl
  | cons c rest ih =>
    have hrest := ih fun hwithin => h (hwithin.trans (List.suffix_cons c rest).isInfix)
    rcases eq_or_ne c '*' with rfl | hc
    · refine withoutEnd_cons (fun hend => ?_) hrest
      obtain ⟨d, hhead, hd⟩ := head?_of_encode (by decide) hend.2
      have hslash : d = '/' := Char.toNat_inj.mp hd
      obtain ⟨tail, rfl⟩ := List.head?_eq_some_iff.mp hhead
      rw [hslash] at h
      exact h ⟨[], tail, rfl⟩
    · refine withoutEnd_append ?_ hrest
      rintro byte hbyte rfl
      exact hc (Char.toNat_inj.mp (toNat_eq_of_mem_utf8EncodeChar (by decide) hbyte))

theorem startsComment_of_ne {byte : UInt8} (h : byte ≠ slash) (tail : Bytes) :
    startsComment (byte :: tail) = false := by
  cases tail with
  | nil => rfl
  | cons next tail => rw [startsComment, beq_eq_false_iff_ne.mpr h, Bool.false_and]

/-- Bytes that start nothing are read one by one. -/
theorem flat_bytes (hbody : ∀ byte ∈ body, isQuote byte = false ∧ byte ≠ slash ∧ byte ≠ 0x65)
    (h : ∀ previous, Flat previous more rest) (previous : Option UInt8) :
    Flat previous (body ++ more) rest := by
  induction body generalizing previous with
  | nil => exact h previous
  | cons byte tail ih =>
    obtain ⟨hquote, hslash, hword⟩ := hbody byte List.mem_cons_self
    refine .code hquote (startsComment_of_ne hslash _) ?_
      (ih (fun other hother => hbody other (List.mem_cons_of_mem byte hother)) _)
    by_contra hfree
    rw [Bool.not_eq_false] at hfree
    obtain ⟨tail', htail⟩ := standsFree_cons hfree
    exact hword (List.cons.inj htail).1

theorem identifierByte_facts {byte : UInt8} (h : identifierByte byte = true) :
    isQuote byte = false ∧ byte ≠ slash :=
  (identifierByte_spec h).2

/-- The rest of a name, behind a byte of it. -/
theorem flat_inside {byte : UInt8} (hbyte : identifierByte byte = true)
    (hbody : ∀ byte ∈ body, identifierByte byte = true) (h : ∀ previous, Flat previous more rest) :
    Flat (some byte) (body ++ more) rest := by
  induction body generalizing byte with
  | nil => exact h _
  | cons next tail ih =>
    have hnext := hbody next List.mem_cons_self
    refine .code (identifierByte_facts hnext).1 (startsComment_of_ne (identifierByte_facts hnext).2 _)
      ?_ (ih hnext fun other hother => hbody other (List.mem_cons_of_mem next hother))
    rw [standsFree, Option.all_some, hbyte]
    simp

/-- A whole word other than `export` is not taken for it. -/
theorem not_standsFree_word (hbody : ∀ byte ∈ body, identifierByte byte = true)
    (hmore : more.head?.all (fun byte => !identifierByte byte) = true) (hword : body ≠ exportWord)
    (previous : Option UInt8) : standsFree previous (body ++ more) = false := by
  by_contra hfree
  rw [Bool.not_eq_false] at hfree
  obtain ⟨tail, htail⟩ := standsFree_cons hfree
  rw [standsFree, Bool.and_eq_true] at hfree
  have hnext := hfree.2
  have hexport : ∀ byte ∈ exportWord, identifierByte byte = true := by decide +kernel
  have hlength : exportWord.length = 6 := rfl
  rcases Nat.lt_trichotomy body.length 6 with hlt | heq | hgt
  · -- the byte behind the word is one of `export`
    have hbyte : (body ++ more)[body.length]? = exportWord[body.length]? := by
      rw [htail, List.getElem?_append_left (by omega)]
    rw [List.getElem?_append_right (Nat.le_refl _), Nat.sub_self, ← List.head?_eq_getElem?] at hbyte
    obtain ⟨byte, hsome⟩ : ∃ byte, exportWord[body.length]? = some byte :=
      ⟨_, List.getElem?_eq_getElem (hlength ▸ hlt)⟩
    rw [hbyte, hsome, Option.all_some, hexport byte (List.mem_of_getElem? hsome)] at hmore
    cases hmore
  · exact hword (List.append_inj htail (by omega)).1
  · have hsome : (body ++ more)[6]? = some body[6] := by
      rw [List.getElem?_append_left hgt, List.getElem?_eq_getElem hgt]
    rw [hsome, Option.all_some, hbody _ (List.getElem_mem _)] at hnext
    cases hnext

theorem flat_word (hbody : ∀ byte ∈ body, identifierByte byte = true)
    (hmore : more.head?.all (fun byte => !identifierByte byte) = true) (hword : body ≠ exportWord)
    (h : ∀ previous, Flat previous more rest) (previous : Option UInt8) :
    Flat previous (body ++ more) rest := by
  cases body with
  | nil => exact h previous
  | cons byte tail =>
    have hbyte := hbody byte List.mem_cons_self
    exact .code (identifierByte_facts hbyte).1 (startsComment_of_ne (identifierByte_facts hbyte).2 _)
      (not_standsFree_word hbody hmore hword previous)
      (flat_inside hbyte (fun other hother => hbody other (List.mem_cons_of_mem byte hother)) h)

theorem identifierByte_of_plain {text : List Char} (h : isPlainName text = true) :
    (∀ byte ∈ encode text, identifierByte byte = true) ∧ encode text ≠ exportWord := by
  rw [isPlainName, Bool.and_eq_true, bne_iff_ne, List.all_eq_true] at h
  obtain ⟨hword, hall⟩ := h
  constructor
  · intro byte hbyte
    obtain ⟨c, hc, hmem⟩ := List.mem_flatMap.mp hbyte
    have hascii : c.toNat < 128 := by
      have hchar := hall c hc
      simp only [Bool.or_eq_true, beq_iff_eq] at hchar
      rcases hchar with (halnum | rfl) | rfl
      · exact toNat_lt_of_alphanum halnum
      · decide
      · decide
    have hbyte := (ascii_spec c.toNat hascii).2.2 (by rw [Char.ofNat_toNat]; exact hall c hc)
    rw [encode_ascii hascii, List.mem_singleton] at hmem
    rw [hmem]
    exact hbyte
  · intro heq
    exact hword (encode_inj.mp (heq.trans rfl))

/-- Characters that are none of those that start something have no byte that does. -/
theorem flat_text {text : List Char}
    (htext : ∀ c ∈ text, c ≠ '\x27' ∧ c ≠ '\x22' ∧ c ≠ '\x60' ∧ c ≠ '/' ∧ c ≠ 'e')
    (h : ∀ previous, Flat previous more rest) (previous : Option UInt8) :
    Flat previous (encode text ++ more) rest := by
  refine flat_bytes (fun byte hbyte => ?_) h previous
  have hne : ∀ d : Char, d.toNat < 128 → (∀ c ∈ text, c ≠ d) → byte ≠ UInt8.ofNat d.toNat := by
    rintro d hd hnot rfl
    have hnat : (UInt8.ofNat d.toNat).toNat = d.toNat := UInt8.toNat_ofNat_of_lt' (by change d.toNat < 256; omega)
    obtain ⟨c, hc, heq⟩ := mem_of_mem_encode (hnat.symm ▸ hd) hbyte
    exact hnot c hc (Char.toNat_inj.mp (heq.trans hnat))
  have hapostrophe : byte ≠ 0x27 := hne '\x27' (by decide) fun c hc => (htext c hc).1
  have hquotation : byte ≠ 0x22 := hne '\x22' (by decide) fun c hc => (htext c hc).2.1
  have hbacktick : byte ≠ 0x60 := hne '\x60' (by decide) fun c hc => (htext c hc).2.2.1
  have hslash := hne '/' (by decide) fun c hc => (htext c hc).2.2.2.1
  have hword := hne 'e' (by decide) fun c hc => (htext c hc).2.2.2.2
  refine ⟨?_, hslash, hword⟩
  rw [isQuote, beq_eq_false_iff_ne.mpr hapostrophe, beq_eq_false_iff_ne.mpr hquotation,
    beq_eq_false_iff_ne.mpr hbacktick]
  rfl

/-- A slash that starts no comment is read. -/
theorem flat_slash {text : List Char} (hends : text.head?.all (fun c => c != '/' && c != '*') = true)
    (h : ∀ previous, Flat previous (encode text) rest) (previous : Option UInt8) :
    Flat previous (slash :: encode text) rest := by
  have hhead : ∀ byte : UInt8, byte.toNat < 128 → (encode text).head? = some byte →
      byte ≠ slash ∧ byte ≠ star := by
    intro byte hbyte hfirst
    obtain ⟨c, hc, hnat⟩ := head?_of_encode hbyte hfirst
    rw [hc, Option.all_some, Bool.and_eq_true, bne_iff_ne, bne_iff_ne] at hends
    constructor
    · rintro rfl
      exact hends.1 (Char.toNat_inj.mp hnat)
    · rintro rfl
      exact hends.2 (Char.toNat_inj.mp hnat)
  refine .code (by decide) ?_ ?_ (h _)
  · cases hmore : encode text with
    | nil => rfl
    | cons byte bytes =>
      have hfirst : (encode text).head? = some byte := by rw [hmore, List.head?_cons]
      rw [startsComment, Bool.and_eq_false_iff, Bool.or_eq_false_iff, beq_eq_false_iff_ne,
        beq_eq_false_iff_ne, beq_eq_false_iff_ne]
      refine .inr ⟨?_, ?_⟩
      · rintro rfl
        exact (hhead slash (by decide) hfirst).1 rfl
      · rintro rfl
        exact (hhead star (by decide) hfirst).2 rfl
  · by_contra hfree
    rw [Bool.not_eq_false] at hfree
    obtain ⟨tail, htail⟩ := standsFree_cons hfree
    exact absurd (List.cons.inj htail).1 (by decide)

/-- Text between two marks that it does not hold is read through. -/
theorem flat_quoted {m : Char} (hm : String.utf8EncodeChar m = [mark]) (hmark : isQuote mark = true)
    {text : List Char} (hclosed : closed mark (encode text) = true)
    (h : ∀ previous, Flat previous more rest) (previous : Option UInt8) :
    Flat previous (encode (m :: (text ++ [m])) ++ more) rest := by
  have hbytes : encode (m :: (text ++ [m])) ++ more = mark :: (encode text ++ mark :: more) := by
    rw [encode, List.flatMap_cons, List.flatMap_append, List.flatMap_singleton, hm]
    simp [encode]
  rw [hbytes]
  exact .quoted hmark hclosed (h _)

/-- A template that is read flatly has its end. -/
theorem exists_templateEnd {elements : List Element} (h : readsFlat true elements = true) :
    ∃ front body tail, elements = front ++ .templateEnd body :: tail ∧
      closed 0x60 (encode (textOf front)) = true ∧ readsFlat false tail = true := by
  induction elements with
  | nil => cases h
  | cons element tail ih =>
    have hthrough : closed 0x60 (encode element.text) = true → readsFlat true tail = true →
        ∃ front body rest, element :: tail = front ++ .templateEnd body :: rest ∧
          closed 0x60 (encode (textOf front)) = true ∧ readsFlat false rest = true := by
      intro hclosed hrest
      obtain ⟨front, body, rest, rfl, hfront, hflat⟩ := ih hrest
      refine ⟨element :: front, body, rest, rfl, ?_, hflat⟩
      have hsplit : encode (textOf (element :: front)) =
          encode element.text ++ encode (textOf front) := encode_append ..
      rw [hsplit]
      exact closed_append hclosed hfront
    cases element with
    | templateEnd body => exact ⟨[], body, tail, rfl, rfl, h⟩
    | template _ => cases h
    | templateStart _ => cases h
    | _ => exact hthrough (Bool.and_eq_true_iff.mp h).1 (Bool.and_eq_true_iff.mp h).2

/-- Behind a line feed, what is read from it is read on. -/
theorem Flat.tail_lf {previous : Option UInt8} {first : UInt8} {tail : Bytes}
    (h : Flat previous (lf :: more) (first :: tail)) (hfirst : first ≠ lf) :
    Flat (some lf) more (first :: tail) := by
  generalize htext : lf :: more = text at h
  cases h with
  | done => exact absurd (List.cons.inj htext).1.symm hfirst
  | code _ _ _ h =>
    cases htext
    exact h
  | quoted hmark _ _ =>
    cases htext
    cases hmark
  | line _ _ => cases (List.cons.inj htext).1
  | block _ _ => cases (List.cons.inj htext).1

/-! ### Each element -/

section Elements

variable {chars text : List Char}

theorem flat_space (hvalid : (Element.space chars).valid = true)
    (h : ∀ previous, Flat previous more rest) (previous : Option UInt8) :
    Flat previous (encode chars ++ more) rest := by
  rw [Element.valid, Bool.and_eq_true, List.all_eq_true] at hvalid
  refine flat_text (fun c hc => ?_) h previous
  have hspace := hvalid.2 c hc
  refine ⟨?_, ?_, ?_, ?_, ?_⟩
  all_goals
    rintro rfl
    exact absurd hspace (by decide)

theorem flat_punctuator {c : Char} (hvalid : (Element.punctuator c).valid = true)
    (hends : (Element.punctuator c).endsBefore text = true)
    (h : ∀ previous, Flat previous (encode text) rest) (previous : Option UInt8) :
    Flat previous (encode [c] ++ encode text) rest := by
  have hmem : c ∈ punctuators := of_decide_eq_true hvalid
  rcases eq_or_ne c '/' with rfl | hslash
  · rw [Element.endsBefore, bne_self_eq_false, Bool.false_or] at hends
    exact flat_slash hends h previous
  · refine flat_text (fun d hd => ?_) h previous
    rcases List.mem_singleton.mp hd with rfl
    refine ⟨?_, ?_, ?_, hslash, ?_⟩
    all_goals
      rintro rfl
      exact absurd hmem (by decide)

theorem flat_string {m : Char} (hvalid : (Element.string m chars).valid = true)
    (h : ∀ previous, Flat previous more rest) (previous : Option UInt8) :
    Flat previous (encode (m :: (chars ++ [m])) ++ more) rest := by
  rw [Element.valid, Bool.and_eq_true, Bool.or_eq_true, beq_iff_eq, beq_iff_eq] at hvalid
  obtain ⟨hmark, hbody⟩ := hvalid
  have hclosed : ∀ byte : UInt8, byte.toNat < 128 → byte.toNat ≠ 10 → m.toNat = byte.toNat →
      closed byte (encode chars) = true := by
    intro byte hbyte hline heq
    refine closed_of_unbroken hbyte hline (fun c hc => ?_) hbody
    rw [Char.toNat_inj.mp (hc.trans heq.symm), beq_self_eq_true]
    rfl
  rcases hmark with rfl | rfl
  · have hm : String.utf8EncodeChar '\x27' = [0x27] := rfl
    exact flat_quoted hm (by decide) (hclosed 0x27 (by decide) (by decide) (by decide)) h previous
  · have hm : String.utf8EncodeChar '\x22' = [0x22] := rfl
    exact flat_quoted hm (by decide) (hclosed 0x22 (by decide) (by decide) (by decide)) h previous

theorem utf8EncodeChar_backtick : String.utf8EncodeChar '\x60' = [0x60] := rfl

/-- A template with its substitutions is read as one text. -/
theorem flat_templateSpan {chunk front : List Char} (hstart : isTemplateText chars = true)
    (hfront : closed 0x60 (encode front) = true) (hend : isTemplateText chunk = true)
    (h : ∀ previous, Flat previous more rest) (previous : Option UInt8) :
    Flat previous
      (encode ('\x60' :: (chars ++ ['$', '\x7b'] ++ front ++ '\x7d' :: chunk ++ ['\x60'])) ++ more) rest := by
  have hopen : closed 0x60 (encode ['$', '\x7b']) = true := by decide
  have hclose : closed 0x60 (encode ['\x7d']) = true := by decide
  have hclosed : closed 0x60 (encode (chars ++ ['$', '\x7b'] ++ front ++ '\x7d' :: chunk)) = true := by
    rw [encode_append, encode_append, encode_append, ← List.singleton_append, encode_append]
    exact closed_append (closed_append (closed_append (closed_of_isTemplateText hstart) hopen) hfront)
      (closed_append hclose (closed_of_isTemplateText hend))
  exact flat_quoted utf8EncodeChar_backtick (by decide) hclosed h previous

/-- A line comment is read up to its line feed, and what follows is read on from there. -/
theorem flat_lineComment (hvalid : (Element.lineComment chars).valid = true) {first : UInt8}
    {bytes : Bytes} (h : Flat none (lf :: more) (first :: bytes)) (hfirst : first ≠ lf)
    (previous : Option UInt8) :
    Flat previous (encode (Element.lineComment chars).text ++ lf :: more) (first :: bytes) := by
  have hbody : lf ∉ encode chars := by
    refine lf_not_mem_encode fun hmem => ?_
    have hline := List.all_eq_true.mp hvalid _ hmem
    exact absurd hline (by decide)
  have hbytes : encode (Element.lineComment chars).text = slash :: slash :: encode chars := rfl
  rw [hbytes, List.cons_append, List.cons_append]
  exact .line hbody (h.tail_lf hfirst)

theorem flat_blockComment (hvalid : (Element.blockComment chars).valid = true)
    (h : ∀ previous, Flat previous more rest) (previous : Option UInt8) :
    Flat previous (encode (Element.blockComment chars).text ++ more) rest := by
  have hend : withoutEnd (encode chars) = true := withoutEnd_encode (of_decide_eq_true hvalid)
  have hbytes : encode (Element.blockComment chars).text =
      slash :: star :: (encode chars ++ [star, slash]) := by
    have htext : (Element.blockComment chars).text = ['/', '*'] ++ chars ++ ['*', '/'] := rfl
    rw [htext, encode_append, encode_append]
    rfl
  rw [hbytes, List.cons_append, List.cons_append, List.append_assoc]
  exact .block hend (h _)

end Elements

/-- Elements that are read as they are lead up to the declaration. -/
theorem flat_of_readsFlat {elements after : List Element} {tail : List Char}
    (hvalid : ∀ element ∈ elements, element.valid = true)
    (hseparated : separated (elements ++ after) = true) (hafter : textOf after = 'e' :: tail)
    (h : readsFlat false elements = true) (previous : Option UInt8) :
    Flat previous (encode (textOf elements ++ textOf after)) (encode (textOf after)) := by
  induction hlength : elements.length using Nat.strong_induction_on generalizing elements previous with
  | _ length ih =>
  cases elements with
  | nil => exact .done
  | cons element others =>
    rw [List.length_cons] at hlength
    have hothers : ∀ element ∈ others, element.valid = true :=
      fun other hother => hvalid other (List.mem_cons_of_mem element hother)
    have hself := hvalid element List.mem_cons_self
    have hends := @endsBefore_of_separated [] (others ++ after) element hseparated
    have hnext := @separated_append [element] (others ++ after) hseparated
    have hsplit : encode (textOf (element :: others) ++ textOf after) =
        encode element.text ++ encode (textOf others ++ textOf after) := by
      rw [← encode_append, ← List.append_assoc]
      rfl
    have hread : readsFlat false others = true → ∀ previous,
        Flat previous (encode (textOf others ++ textOf after)) (encode (textOf after)) :=
      fun hflat previous => ih others.length (by omega) hothers hnext hflat previous rfl
    rw [textOf_append] at hends
    rw [hsplit]
    cases element with
    | space text => exact flat_space hself (hread h) previous
    | punctuator c => exact flat_punctuator hself hends (hread h) previous
    | name text =>
      rw [readsFlat, Bool.and_eq_true] at h
      obtain ⟨hbytes, hword⟩ := identifierByte_of_plain h.1
      exact flat_word hbytes (head?_encode_not_identifier hends) hword (hread h.2) previous
    | string mark body => exact flat_string hself (hread h) previous
    | template body =>
      exact flat_quoted utf8EncodeChar_backtick (by decide) (closed_of_isTemplateText hself) (hread h)
        previous
    | templateStart body =>
      obtain ⟨front, chunk, last, rfl, hfront, hlast⟩ := exists_templateEnd h
      have hchunk := hothers _ (List.mem_append_right _ List.mem_cons_self)
      -- what follows the end of the template is read by the induction
      have hrest : ∀ previous,
          Flat previous (encode (textOf last ++ textOf after)) (encode (textOf after)) := by
        intro previous
        refine ih last.length ?_ ?_ ?_ hlast previous rfl
        · rw [List.length_append, List.length_cons] at hlength
          omega
        · exact fun other hother =>
            hothers other (List.mem_append_right _ (List.mem_cons_of_mem _ hother))
        · rw [List.append_assoc] at hnext
          exact @separated_append [_] _ (separated_append hnext)
      have hflat := flat_templateSpan hself hfront hchunk hrest previous
      rw [← encode_append] at hflat ⊢
      have htext : (Element.templateStart body).text ++
          (textOf (front ++ Element.templateEnd chunk :: last) ++ textOf after) =
          '\x60' :: (body ++ ['$', '\x7b'] ++ textOf front ++ '\x7d' :: chunk ++ ['\x60']) ++
            (textOf last ++ textOf after) := by
        simp [Element.text, textOf]
      rw [htext]
      exact hflat
    | lineComment body =>
      rw [readsFlat, Bool.and_eq_true, beq_iff_eq] at h
      obtain ⟨lines, hlines⟩ := List.head?_eq_some_iff.mp h.1
      have hflat := hread h.2 none
      have hcons : encode (textOf others ++ 'e' :: tail) = lf :: encode (lines ++ 'e' :: tail) := by
        rw [hlines]
        rfl
      have hword : encode ('e' :: tail) = 0x65 :: encode tail := rfl
      rw [hafter, hcons, hword] at hflat ⊢
      exact flat_lineComment hself hflat (by decide) previous
    | blockComment body => exact flat_blockComment hself (hread h) previous
    | templateMiddle _ | templateEnd _ | regex _ _ | hashbang _ => cases h

namespace FlowSource

variable (source : FlowSource)

/-- The script is the source but for the six bytes of the word. -/
theorem encode_script : ∃ rest,
    encode source.text.toList = encode (textOf source.before) ++ (exportWord ++ rest) ∧
      encode source.script.toList =
        encode (textOf source.before) ++ (List.replicate 6 0x20 ++ rest) := by
  obtain ⟨rest, hafter, hbytes⟩ := source.encode_text
  refine ⟨encode rest, hbytes, ?_⟩
  have hdrop : (textOf source.after).drop 6 = rest := by rw [hafter]; rfl
  rw [script, String.toList_ofList, hdrop, encode_append, encode_append, List.append_assoc]
  rfl

/-- A source that is read as it is up to its declaration is stripped. -/
theorem strip_of_readsFlat (h : readsFlat false source.before = true) :
    stripMetaExport source.text = .ok source.script := by
  obtain ⟨rest, hafter, -⟩ := source.encode_text
  have hseparated := source.separated
  rw [source.elements_eq] at hseparated
  have hvalid : ∀ element ∈ source.before, element.valid = true := by
    intro element hmem
    exact List.all_eq_true.mp source.valid element (List.mem_of_mem_take hmem)
  have hflat := flat_of_readsFlat hvalid hseparated hafter h none
  refine source.strip_eq_script_iff.mpr ?_
  rwa [text, String.toList_ofList, source.elements_eq, textOf_append]

/-- The word of the declaration, and no other byte, is blanked exactly where what stands before it is
read flatly up to it, as it is where only simple elements stand there. -/
theorem strip_exact_iff :
    (∃ rest, encode source.text.toList = encode (textOf source.before) ++ (exportWord ++ rest) ∧
      encode source.script.toList =
        encode (textOf source.before) ++ (List.replicate 6 0x20 ++ rest)) ∧
    (stripMetaExport source.text = .ok source.script ↔
      Flat none (encode source.text.toList) (encode (textOf source.after))) ∧
    (readsFlat false source.before = true → stripMetaExport source.text = .ok source.script) :=
  ⟨source.encode_script, source.strip_eq_script_iff, source.strip_of_readsFlat⟩

/-- Where the source is stripped, the loop finds the word of the declaration. -/
theorem findExport_of_strip (h : stripMetaExport source.text = .ok source.script) :
    findExport (encode source.text.toList) = some (encode (textOf source.before)).length := by
  have hflat := source.strip_eq_script_iff.mp h
  have hbytes : encode source.text.toList =
      encode (textOf source.before) ++ encode (textOf source.after) := by
    rw [text, String.toList_ofList, ← encode_append, ← textOf_append, ← source.elements_eq]
  rw [hbytes] at hflat ⊢
  exact findExport_eq_some_iff.mpr ⟨hflat, source.standsFree_after⟩

end FlowSource

namespace LexicalSample

def word (text : String) : Element := .name text.toList

def quoted (text : String) : Element := .string '\x27' text.toList

def gap : Element := .space [' ']

def line : Element := .space ['\n']

/-- `export const meta = {name:'a',description:'b',pools:['p'],argsSchema:{}};`. -/
def declaration : List Element :=
  [word "export", gap, word "const", gap, word "meta", gap, .punctuator '=', gap,
    .punctuator '\x7b', word "name", .punctuator ':', quoted "a", .punctuator ',',
    word "description", .punctuator ':', quoted "b", .punctuator ',', word "pools", .punctuator ':',
    .punctuator '[', quoted "p", .punctuator ']', .punctuator ',', word "argsSchema",
    .punctuator ':', .punctuator '\x7b', .punctuator '\x7d', .punctuator '\x7d', .punctuator ';']

/-- A comment, a string and a template with a substitution, each with the letters of `export`. -/
def plain : FlowSource where
  elements := [.lineComment " export".toList, line, word "const", gap, word "s", .punctuator '=',
    quoted " export ", .punctuator '+', .templateStart " export ".toList, word "x",
    .templateEnd " export ".toList, .punctuator ';', line] ++ declaration
  place := 13
  valid := by decide +kernel
  separated := by decide +kernel
  declared := by decide +kernel

theorem strip_exact_iff_plain : stripMetaExport plain.text = .ok plain.script :=
  plain.strip_exact_iff.2.2 (by decide +kernel)

/-- `const r = /"/;` before the declaration. -/
def regex : FlowSource where
  elements := [word "const", gap, word "r", gap, .punctuator '=', gap, .regex ['\x22'] [],
    .punctuator ';', line] ++ declaration
  place := 9
  valid := by decide +kernel
  separated := by decide +kernel
  declared := by decide +kernel

/-- `const o = {export:1};` before the declaration. -/
def property : FlowSource where
  elements := [word "const", gap, word "o", gap, .punctuator '=', gap, .punctuator '\x7b',
    word "export", .punctuator ':', word "1", .punctuator '\x7d', .punctuator ';', line] ++ declaration
  place := 13
  valid := by decide +kernel
  separated := by decide +kernel
  declared := by decide +kernel

/-- The quotation mark of a regular expression opens a quote that does not end, and the declaration is
not found; a property that is named `export` is found in its place. -/
theorem regex_hides_export :
    stripMetaExport regex.text ≠ .ok regex.script ∧
      findExport (encode regex.text.toList) = none ∧
      stripMetaExport property.text ≠ .ok property.script ∧
      findExport (encode property.text.toList) = some 11 := by
  have hregex : findExport (encode regex.text.toList) = none := by decide +kernel
  have hproperty : findExport (encode property.text.toList) = some 11 := by decide +kernel
  refine ⟨fun h => ?_, hregex, fun h => ?_, hproperty⟩
  · rw [regex.findExport_of_strip h] at hregex
    cases hregex
  · rw [property.findExport_of_strip h] at hproperty
    exact absurd (Option.some.inj hproperty) (by decide +kernel)

end LexicalSample

end Tally.Flow
