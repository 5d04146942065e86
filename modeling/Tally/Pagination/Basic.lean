import Tally.Lib.JsonSize
import Tally.Lib.Digits
import Tally.Lib.Result
import Mathlib.Data.List.Sort

/-!
# Pages of a collection

A collection response is split into a template and its items and kept as a snapshot; a page is the
template with as many items as its limit and the bound on its bytes allow, and a cursor to the next
item (`pagination.rs`). An item that is too large on its own is served with its longest texts cut.
-/

namespace Tally.Pagination

open Tally.Lib

def defaultPageItems : Nat := 100

def maxPageItems : Nat := 1000

def pageResultCapBytes : Nat := 48 * 1024

def elisionKeepBytes : Nat := 256

def elisionMarkerKey : String := "elided"

def maxSnapshots : Nat := 32

def snapshotBudgetBytes : Nat := 64 * 1024 * 1024

inductive PaginationError
  | invalidLimit
  | invalidCursor
  | cursorExpired
  | cursorMismatch
  | invalidEnvelope
  | itemTooLarge
  deriving DecidableEq

/-! ## Snapshots -/

structure PreparedSnapshot where
  template : Value
  items : List Value
  bytes : Nat
  /-- The items are a `Vec`. -/
  length_le : items.length ≤ usizeMax

structure Snapshot extends PreparedSnapshot where
  id : Nat
  method : String
  fingerprint : String

/-- `Map::remove`: the last member takes the place. -/
def swapRemove (fields : Fields) (key : String) : Fields :=
  match fields.findIdx? (fun field => field.1 = key), fields.getLast? with
  | some index, some last => (fields.set index last).dropLast
  | _, _ => fields

/-- The envelope without its items. -/
def templateOf (object : Fields) : Fields :=
  ((swapRemove object "items").insert "items" (.array [])).insert "nextCursor" .null

def prepareSnapshot : Value → Except PaginationError PreparedSnapshot
  | .object object =>
    match Fields.get? object "items" with
    | some (.array items) =>
      -- an array has no more items than a `Vec` can hold
      if length_le : items.length ≤ usizeMax then
        let template := Value.object (templateOf object)
        let bytes := saturatingAdd (size template)
          (items.foldl (fun total item => saturatingAdd total (size item)) 0)
        .ok { template, items, bytes, length_le }
      else .error .invalidEnvelope
    | _ => .error .invalidEnvelope
  | _ => .error .invalidEnvelope

/-! ## Cursors -/

def cursorVersion : List Char := ['p', 'a', 'g', 'e', '-', 'v', '1']

def pageCursor (snapshot offset : Nat) : String :=
  String.ofList (cursorVersion ++ ':' :: (pad snapshot ++ ':' :: pad offset))

/-- `str::split`. -/
def separated (sep : Char) (text : List Char) : List (List Char) :=
  (split sep text).1 ++ [(split sep text).2]

def parseCursor (cursor : String) : Except PaginationError (Nat × Nat) :=
  match separated ':' cursor.toList with
  | [version, snapshot, offset] =>
    match parseU64 snapshot, parseU64 offset with
    | some snapshot, some offset =>
      if version = cursorVersion then .ok (snapshot, offset) else .error .invalidCursor
    | _, _ => .error .invalidCursor
  | _ => .error .invalidCursor

/-! ## Elision -/

/-- The longest beginning of a text within a number of bytes. -/
def takeBytes : Nat → List Char → List Char
  | _, [] => []
  | room, c :: text => if c.utf8Size ≤ room then c :: takeBytes (room - c.utf8Size) text else []

def elideText (text : String) : String :=
  let kept := String.ofList (takeBytes elisionKeepBytes text.toList)
  kept ++ "…<" ++ (text.utf8ByteSize - kept.utf8ByteSize).repr ++ " bytes elided>"

/-- A key as a token of a JSON pointer. -/
def escapeToken (key : String) : String :=
  String.ofList (key.toList.flatMap fun c =>
    if c = '~' then ['~', '0'] else if c = '/' then ['~', '1'] else [c])

/-- `str::replace` of a pair of characters. -/
def replacePair (a b c : Char) : List Char → List Char
  | x :: y :: rest =>
    if x = a ∧ y = b then c :: replacePair a b c rest else x :: replacePair a b c (y :: rest)
  | text => text

def unescapeToken (token : List Char) : String :=
  String.ofList (replacePair '~' '0' '~' (replacePair '~' '1' '/' token))

def parseIndex (token : String) : Option Nat :=
  let text := token.toList
  if text.head? = some '+' ∨ (text.head? = some '0' ∧ text.length ≠ 1) then none else parseU64 text

mutual

/-- The texts of a value with their pointers and lengths. -/
def collectStringLeaves (pointer : String) : Value → List (String × Nat)
  | .string text => [(pointer, text.utf8ByteSize)]
  | .array items => collectItems pointer 0 items
  | .object fields => collectFields pointer fields
  | .null | .bool _ | .number _ => []

def collectItems (pointer : String) (index : Nat) : List Value → List (String × Nat)
  | [] => []
  | item :: items =>
    collectStringLeaves (pointer ++ "/" ++ index.repr) item ++ collectItems pointer (index + 1) items

def collectFields (pointer : String) : List (String × Value) → List (String × Nat)
  | [] => []
  | (key, field) :: fields =>
    (if key = elisionMarkerKey then []
      else collectStringLeaves (pointer ++ "/" ++ escapeToken key) field) ++
    collectFields pointer fields

end

/-- Changes the value behind the tokens of a pointer. -/
def modifyAt (change : Value → Option Value) : List String → Value → Option Value
  | [], value => change value
  | token :: tokens, .object fields =>
    (Fields.get? fields token).bind fun value =>
      (modifyAt change tokens value).map fun value => .object (Fields.insert fields token value)
  | token :: tokens, .array items =>
    (parseIndex token).bind fun index => (items[index]?).bind fun value =>
      (modifyAt change tokens value).map fun value => .array (items.set index value)
  | _ :: _, _ => none

def elideLeaf : Value → Option Value
  | .string text => some (.string (elideText text))
  | _ => none

def elideAt (value : Value) (pointer : String) : Option Value :=
  match separated '/' pointer.toList with
  | [[]] => elideLeaf value
  | [] :: tokens => modifyAt elideLeaf (tokens.map unescapeToken) value
  | _ => none

def elisionMarker (cut : List Value) (originalBytes : Nat) : Value :=
  .object [("fields", .array cut), ("originalBytes", .number (.ofNat originalBytes)),
    ("reason", .string "item exceeded the bounded response size")]

/-- Longest texts first, then by their pointers. -/
def elisionOrder (left right : String × Nat) : Prop :=
  right.2 < left.2 ∨ (right.2 = left.2 ∧ left.1 ≤ right.1)

instance : DecidableRel elisionOrder := fun left right =>
  inferInstanceAs (Decidable (right.2 < left.2 ∨ (right.2 = left.2 ∧ left.1 ≤ right.1)))

def elideNext (room originalBytes : Nat) :
    List (String × Nat) → Value → List Value → Option Value
  | [], _, _ => none
  | (pointer, length) :: candidates, work, cut =>
    if length ≤ elisionKeepBytes then none
    else match elideAt work pointer with
      | some (.object fields) =>
        let cut := cut ++ [.string pointer]
        let marker := elisionMarker cut originalBytes
        let work := Value.object (Fields.insert fields elisionMarkerKey marker)
        if size work ≤ room then some work else elideNext room originalBytes candidates work cut
      | _ => none

def elideToFit (item : Value) (room : Nat) : Option Value :=
  match item with
  | .object fields =>
    let candidates := (collectStringLeaves "" (.object fields)).insertionSort elisionOrder
    elideNext room (size item) candidates item []
  | _ => none

/-! ## Pages -/

def pageFields (template : Fields) (items : List Value) (nextCursor : Option String) (elided : Nat) :
    Fields :=
  let object := template.insert "items" (.array items)
  let object := object.insert "truncated" (.bool nextCursor.isSome)
  let object := object.insert "elidedItems" (.number (.ofNat elided))
  object.insert "nextCursor" (nextCursor.elim .null .string)

/-- `render`. -/
def renderPage (template : Value) (items : List Value) (nextCursor : Option String) (elided : Nat) :
    Except PaginationError Value :=
  match template with
  | .object fields => .ok (.object (pageFields fields items nextCursor elided))
  | _ => .error .invalidEnvelope

/-- The items of a page. -/
structure Filled where
  items : List Value
  elided : Nat
  nextOffset : Nat

/-- The bytes of the page with another item and its separator. -/
def candidateBytes (used : Nat) (item : Value) (pageItems : List Value) : Nat :=
  saturatingAdd (saturatingAdd used (size item)) (if pageItems = [] then 0 else 1)

/-- Takes items while they fit. A first item that does not is cut until it does. -/
def fill (limit : Nat) : List Value → (used : Nat) → (pageItems : List Value) →
    (nextOffset : Nat) → Except PaginationError Filled
  | [], _, pageItems, nextOffset => .ok ⟨pageItems, 0, nextOffset⟩
  | item :: rest, used, pageItems, nextOffset =>
    if pageItems.length < limit then
      if candidateBytes used item pageItems > pageResultCapBytes then
        if pageItems = [] then
          match elideToFit item (pageResultCapBytes - used) with
          | none => .error .itemTooLarge
          | some shrunk => .ok ⟨[shrunk], 1, nextOffset + 1⟩
        else .ok ⟨pageItems, 0, nextOffset⟩
      else
        fill limit rest (candidateBytes used item pageItems) (pageItems ++ [item]) (nextOffset + 1)
    else .ok ⟨pageItems, 0, nextOffset⟩

def Snapshot.page (snapshot : Snapshot) (offset limit : Nat) : Except PaginationError Value := do
  let emptyRender ← renderPage snapshot.template [] (some (pageCursor snapshot.id offset)) 0
  let filled ← fill limit (snapshot.items.drop offset) (size emptyRender) [] offset
  let nextCursor :=
    if filled.nextOffset < snapshot.items.length then some (pageCursor snapshot.id filled.nextOffset)
    else none
  renderPage snapshot.template filled.items nextCursor filled.elided

/-! ## The cache -/

structure PageCache where
  nextId : Nat := 1
  snapshots : List Snapshot := []
  budgetBytes : Nat := snapshotBudgetBytes
  usedBytes : Nat := 0

/-- Drops the oldest snapshots until there is room for another one. -/
def evict (budget bytes : Nat) : List Snapshot → (used : Nat) → List Snapshot × Nat
  | [], used => ([], used)
  | oldest :: rest, used =>
    if (oldest :: rest).length = maxSnapshots ∨ saturatingAdd used bytes > budget then
      evict budget bytes rest (used - oldest.bytes)
    else (oldest :: rest, used)

namespace PageCache

/-- The numbers start again after the last one. -/
def succId (id : Nat) : Nat := if id = u64Max then 1 else id + 1

def nextSnapshot (cache : PageCache) (method fingerprint : String) (prepared : PreparedSnapshot) :
    Snapshot :=
  { prepared with id := cache.nextId, method, fingerprint }

def retain (cache : PageCache) (method fingerprint : String) (prepared : PreparedSnapshot) :
    PageCache :=
  let (snapshots, used) := evict cache.budgetBytes prepared.bytes cache.snapshots cache.usedBytes
  { cache with
    nextId := succId cache.nextId
    usedBytes := saturatingAdd used prepared.bytes
    snapshots := snapshots ++ [cache.nextSnapshot method fingerprint prepared] }

/-- The page at an offset of a retained snapshot. -/
def serve (cache : PageCache) (method fingerprint : String) (limit id offset : Nat) :
    Except PaginationError Value := do
  let snapshot ← orError (cache.snapshots.find? fun snapshot => snapshot.id = id) .cursorExpired
  ensure (snapshot.method = method ∧ snapshot.fingerprint = fingerprint) .cursorMismatch
  ensure (offset ≤ snapshot.items.length) .invalidCursor
  snapshot.page offset limit

/-- The page, and the cache after the call. -/
def pageAt (cache : PageCache) (method fingerprint : String) (limit : Option Nat)
    (cursor : Option String) (prepared : Option PreparedSnapshot) :
    Except PaginationError Value × PageCache :=
  let limit := limit.getD defaultPageItems
  if 1 ≤ limit ∧ limit ≤ maxPageItems then
    match cursor with
    | some cursor =>
      match parseCursor cursor with
      | .error error => (.error error, cache)
      | .ok (id, offset) => (cache.serve method fingerprint limit id offset, cache)
    | none =>
      match prepared with
      | none => (.error .invalidEnvelope, cache)
      | some prepared =>
        let retained := cache.retain method fingerprint prepared
        (retained.serve method fingerprint limit cache.nextId 0, retained)
  else (.error .invalidLimit, cache)

def pagePrepared (cache : PageCache) (method fingerprint : String) (limit : Option Nat)
    (prepared : PreparedSnapshot) : Except PaginationError Value × PageCache :=
  cache.pageAt method fingerprint limit none (some prepared)

def page (cache : PageCache) (method fingerprint : String) (limit : Option Nat)
    (cursor : Option String) (envelope : Option Value) : Except PaginationError Value × PageCache :=
  match cursor with
  | some cursor => cache.pageAt method fingerprint limit (some cursor) none
  | none =>
    match envelope with
    | none => (.error .invalidEnvelope, cache)
    | some envelope =>
      match prepareSnapshot envelope with
      | .error error => (.error error, cache)
      | .ok prepared => cache.pagePrepared method fingerprint limit prepared

end PageCache

end Tally.Pagination
