import Tally.Lib.Ascii
import Tally.Lib.Result
import Tally.Lib.Table
import Mathlib.Data.String.Basic

/-!
# The JSON of the driver

`json.rs` of the driver: values whose numbers are lexemes and whose objects are ordered maps, the
compact text of them, and the parser, which goes over the bytes of a text.
-/

namespace Tally.Driver

open Tally.Lib

/-! ## Values -/

/-- The entries of an object are those of its `BTreeMap`, in the order of the keys. -/
inductive Json
  | null
  | bool (value : Bool)
  | number (lexeme : String)
  | string (value : String)
  | array (values : List Json)
  | object (entries : List (String × Json))

namespace Json

/-- `write_string`, of one character. -/
def writeChar (character : Char) : List Char :=
  if character = '\x22' then ['\x5c', '\x22']
  else if character = '\x5c' then ['\x5c', '\x5c']
  else if character = '\x08' then ['\x5c', 'b']
  else if character = '\x0c' then ['\x5c', 'f']
  else if character = '\n' then ['\x5c', 'n']
  else if character = '\r' then ['\x5c', 'r']
  else if character = '\t' then ['\x5c', 't']
  else if character ≤ '\x1f' then
    -- `{:04x}`
    '\x5c' :: 'u' :: '0' :: '0' :: [Nat.digitChar (character.toNat / 16),
      Nat.digitChar (character.toNat % 16)]
  else [character]

def writeString (value : String) : List Char :=
  '\x22' :: (value.toList.flatMap writeChar ++ ['\x22'])

mutual

def stringify : Json → List Char
  | .null => "null".toList
  | .bool true => "true".toList
  | .bool false => "false".toList
  | .number lexeme => lexeme.toList
  | .string value => writeString value
  | .array values => '[' :: (writeValues true values ++ [']'])
  | .object entries => '\x7b' :: (writeEntries true entries ++ ['\x7d'])

def writeValues (first : Bool) : List Json → List Char
  | [] => []
  | value :: values =>
    (if first then [] else [',']) ++ stringify value ++ writeValues false values

def writeEntries (first : Bool) : List (String × Json) → List Char
  | [] => []
  | (key, value) :: entries =>
    (if first then [] else [',']) ++ writeString key ++ ':' :: stringify value ++
      writeEntries false entries

end

end Json

/-! ## The parser -/

namespace Parser

section

-- the length of the input; the cursor is at the first byte that is left
variable (size : Nat)

def error {α : Type} (rest : Bytes) (message : String) : Except String α :=
  .error ("invalid JSON at byte " ++ toString (size - rest.length) ++ ": " ++ message)

def isSpace (byte : UInt8) : Bool :=
  byte == ascii ' ' || byte == ascii '\n' || byte == ascii '\r' || byte == ascii '\t'

def whitespace (rest : Bytes) : Bytes := rest.dropWhile isSpace

/-- The bytes after the one that is expected, if it is there. -/
def take (expected : UInt8) : Bytes → Option Bytes
  | [] => none
  | byte :: rest => if byte = expected then some rest else none

def literal (text : String) (rest : Bytes) : Except String Bytes :=
  let literal := encode text.toList
  if rest.take literal.length = literal then .ok (rest.drop literal.length)
  else error size rest "invalid literal"

/-! ### Numbers -/

def isDigit (byte : UInt8) : Bool := ascii '0' ≤ byte && byte ≤ ascii '9'

def digits (rest : Bytes) : Bytes := rest.dropWhile isDigit

def integer (rest : Bytes) : Except String Bytes :=
  match rest with
  | [] => error size rest "invalid number"
  | byte :: after =>
    if byte = ascii '0' then
      if after.head?.any isDigit then error size after "leading zero in number" else .ok after
    else if isDigit byte then .ok (digits after)
    else error size rest "invalid number"

def fraction (rest : Bytes) : Except String Bytes :=
  match take (ascii '.') rest with
  | none => .ok rest
  | some rest =>
    if rest.head?.any isDigit then .ok (digits rest) else error size rest "fraction has no digits"

/-- The bytes after a sign, if there is one. -/
def sign : Bytes → Bytes
  | [] => []
  | byte :: rest => if byte = ascii '+' ∨ byte = ascii '-' then rest else byte :: rest

def exponent (rest : Bytes) : Except String Bytes :=
  match rest with
  | [] => .ok []
  | byte :: after =>
    if byte = ascii 'e' ∨ byte = ascii 'E' then
      if (sign after).head?.any isDigit then .ok (digits (sign after))
      else error size (sign after) "exponent has no digits"
    else .ok rest

def number (start : Bytes) : Except String (String × Bytes) := do
  let rest ← integer size ((take (ascii '-') start).getD start)
  let rest ← fraction size rest
  let rest ← exponent size rest
  let lexeme ← orError (decode (start.take (start.length - rest.length))) "invalid number encoding"
  .ok (String.ofList lexeme, rest)

/-! ### Strings -/

def hexDigit (byte : UInt8) : Option Nat :=
  if ascii '0' ≤ byte ∧ byte ≤ ascii '9' then some (byte.toNat - 48)
  else if ascii 'a' ≤ byte ∧ byte ≤ ascii 'f' then some (byte.toNat - 97 + 10)
  else if ascii 'A' ≤ byte ∧ byte ≤ ascii 'F' then some (byte.toNat - 65 + 10)
  else none

/-- Four digits do not overflow sixteen bits. -/
def hexQuad (rest : Bytes) : Except String (Nat × Bytes) :=
  if rest.length < 4 then error size rest "incomplete Unicode escape"
  else do
    let value ← orError
      ((rest.take 4).foldlM (fun value byte => (hexDigit byte).map (value * 16 + ·)) 0)
      "invalid Unicode escape"
    .ok (value, rest.drop 4)

/-- The bytes after `\u` that have to follow a high surrogate. -/
def lowEscape (rest : Bytes) : Except String Bytes :=
  match take (ascii '\x5c') rest with
  | none => error size rest "high surrogate without a low surrogate"
  | some rest =>
    match take (ascii 'u') rest with
    | none => error size rest "high surrogate without a low surrogate"
    | some rest => .ok rest

def scalar (rest : Bytes) : Except String (Nat × Bytes) := do
  let (first, rest) ← hexQuad size rest
  if 0xD800 ≤ first ∧ first ≤ 0xDBFF then
    let rest ← lowEscape size rest
    let (second, rest) ← hexQuad size rest
    if 0xDC00 ≤ second ∧ second ≤ 0xDFFF then
      .ok (0x10000 + (first - 0xD800) * 2 ^ 10 + (second - 0xDC00), rest)
    else error size rest "invalid low surrogate"
  else if 0xDC00 ≤ first ∧ first ≤ 0xDFFF then
    error size rest "low surrogate without a high surrogate"
  else .ok (first, rest)

/-- The bytes that an escape stands for. -/
def escape (rest : Bytes) : Except String (Bytes × Bytes) :=
  match rest with
  | [] => error size rest "unterminated escape"
  | escaped :: rest =>
    if escaped = ascii '\x22' ∨ escaped = ascii '\x5c' ∨ escaped = ascii '/' then .ok ([escaped], rest)
    else if escaped = ascii 'b' then .ok ([8], rest)
    else if escaped = ascii 'f' then .ok ([12], rest)
    else if escaped = ascii 'n' then .ok ([10], rest)
    else if escaped = ascii 'r' then .ok ([13], rest)
    else if escaped = ascii 't' then .ok ([9], rest)
    else if escaped = ascii 'u' then do
      let (scalar, rest) ← scalar size rest
      if scalar.isValidChar then .ok (encode [Char.ofNat scalar], rest)
      else .error "invalid Unicode scalar in JSON string"
    else error size rest "invalid string escape"

/-- The loop of `string`. The fuel is the number of bytes left at least, so that it runs out at the end
of the input only; so are the rounds and the depth below. -/
def characters : Nat → Bytes → Bytes → Except String (String × Bytes)
  | 0, rest, _ => error size rest "unterminated string"
  | _ + 1, [], _ => error size [] "unterminated string"
  | fuel + 1, byte :: rest, bytes =>
    if byte = ascii '\x22' then do
      let text ← orError (decode bytes) "invalid UTF-8 in JSON string"
      .ok (String.ofList text, rest)
    else if byte = ascii '\x5c' then do
      let (escaped, rest) ← escape size rest
      characters fuel rest (bytes ++ escaped)
    else if byte ≤ 0x1F then error size rest "control character in string"
    else characters fuel rest (bytes ++ [byte])

/-- The quotation mark is the first byte. -/
def string (rest : Bytes) : Except String (String × Bytes) := characters size rest.length rest.tail []

/-! ### Values -/

section

variable (value : Bytes → Except String (Json × Bytes))

def values : Nat → Bytes → List Json → Except String (Json × Bytes)
  | 0, rest, _ => error size rest "unexpected end of input"
  | rounds + 1, rest, parsed => do
    let (item, rest) ← value (whitespace rest)
    let parsed := parsed ++ [item]
    let rest := whitespace rest
    match take (ascii ']') rest with
    | some rest => .ok (.array parsed, rest)
    | none =>
      match take (ascii ',') rest with
      | some rest => values rounds rest parsed
      | none => error size rest "expected ',' or ']' in array"

def array (rest : Bytes) : Except String (Json × Bytes) :=
  let rest := whitespace rest.tail
  match take (ascii ']') rest with
  | some rest => .ok (.array [], rest)
  | none => values size value rest.length rest []

/-- The name of a member and the colon. -/
def key (rest : Bytes) : Except String (String × Bytes) := do
  ensure (rest.head? = some (ascii '\x22'))
    ("invalid JSON at byte " ++ toString (size - rest.length) ++ ": expected an object key")
  let (key, rest) ← string size rest
  let rest := whitespace rest
  match take (ascii ':') rest with
  | some rest => .ok (key, rest)
  | none => error size rest "expected ':' after object key"

def entries : Nat → Bytes → List (String × Json) → Except String (Json × Bytes)
  | 0, rest, _ => error size rest "expected an object key"
  | rounds + 1, rest, parsed => do
    let (key, rest) ← key size (whitespace rest)
    let (item, rest) ← value (whitespace rest)
    let parsed := Table.insertEntry key item parsed
    let rest := whitespace rest
    match take (ascii '\x7d') rest with
    | some rest => .ok (.object parsed, rest)
    | none =>
      match take (ascii ',') rest with
      | some rest => entries rounds rest parsed
      | none => error size rest "expected ',' or '\x7d' in object"

def object (rest : Bytes) : Except String (Json × Bytes) :=
  let rest := whitespace rest.tail
  match take (ascii '\x7d') rest with
  | some rest => .ok (.object [], rest)
  | none => entries size value rest.length rest []

end

def value : Nat → Bytes → Except String (Json × Bytes)
  | 0, rest => error size rest "unexpected end of input"
  | _ + 1, [] => error size [] "unexpected end of input"
  | depth + 1, byte :: after =>
    let rest := byte :: after
    if byte = ascii 'n' then do
      let rest ← literal size "null" rest
      .ok (.null, rest)
    else if byte = ascii 't' then do
      let rest ← literal size "true" rest
      .ok (.bool true, rest)
    else if byte = ascii 'f' then do
      let rest ← literal size "false" rest
      .ok (.bool false, rest)
    else if byte = ascii '\x22' then do
      let (text, rest) ← string size rest
      .ok (.string text, rest)
    else if byte = ascii '[' then array size (value depth) rest
    else if byte = ascii '\x7b' then object size (value depth) rest
    else if byte = ascii '-' ∨ isDigit byte then do
      let (lexeme, rest) ← number size rest
      .ok (.number lexeme, rest)
    else error size rest "expected a JSON value"

end

/-- `json::parse`. -/
def parse (text : List Char) : Except String Json := do
  let input := encode text
  let start := whitespace input
  let (value, rest) ← value input.length start.length start
  let rest := whitespace rest
  if rest.isEmpty then .ok value else error input.length rest "trailing content"

end Parser

end Tally.Driver
