import Tally.Pagination.Basic
import Mathlib.Data.List.Nodup

/-!
# Following the cursors

A client asks for a first page and then for the page at each cursor that it gets. It sees the items
of the snapshot in order, once each, on pages within the bound (`cursor_walk_exact`), whatever other
calls are made on the cache between its own.
-/

namespace Tally.Pagination

open Tally.Lib

/-! ## Cursors -/

theorem parseCursor_pageCursor {id offset : Nat} (hid : id ≤ u64Max) (hoffset : offset ≤ u64Max) :
    parseCursor (pageCursor id offset) = .ok (id, offset) := by
  have hparts : separated ':' (pageCursor id offset).toList =
      [cursorVersion, pad id, pad offset] := by
    rw [pageCursor, String.toList_ofList, separated, split_append_sep (by decide),
      split_append_sep (not_mem_pad rfl), split_of_not_mem (not_mem_pad rfl)]
    rfl
  rw [parseCursor, hparts]
  dsimp only
  rw [parseU64_pad hid, parseU64_pad hoffset]
  rfl

/-- A cursor has forty-nine characters, and quotes. -/
theorem size_pageCursor {id offset : Nat} (hid : id ≤ u64Max) (hoffset : offset ≤ u64Max) :
    size (.string (pageCursor id offset)) = 51 := by
  have hplain : ∀ c ∈ cursorVersion ++ ':' :: (pad id ++ ':' :: pad offset),
      c ≠ '\x22' ∧ c ≠ '\x5c' ∧ 32 ≤ c.toNat ∧ c.toNat < 128 := by
    have hdigit : ∀ n, ∀ c ∈ pad n, c ≠ '\x22' ∧ c ≠ '\x5c' ∧ 32 ≤ c.toNat ∧ c.toNat < 128 := by
      intro n c hc
      have hbounds : 48 ≤ c.toNat ∧ c.toNat ≤ 57 := Char.isDigit_iff_toNat.mp (isDigit_of_mem_pad hc)
      refine ⟨?_, ?_, by omega, by omega⟩
      · rintro rfl
        exact absurd hbounds (by decide)
      · rintro rfl
        exact absurd hbounds (by decide)
    have hversion : ∀ c ∈ cursorVersion ++ [':'],
        c ≠ '\x22' ∧ c ≠ '\x5c' ∧ 32 ≤ c.toNat ∧ c.toNat < 128 := by
      have hall : (cursorVersion ++ [':']).all (fun c =>
          decide (c ≠ '\x22' ∧ c ≠ '\x5c' ∧ 32 ≤ c.toNat ∧ c.toNat < 128)) = true := by decide
      exact fun c hc => of_decide_eq_true (List.all_eq_true.mp hall c hc)
    intro c hc
    simp only [List.mem_append, List.mem_cons] at hc hversion
    rcases hc with hc | rfl | hc | rfl | hc
    · exact hversion c (.inl hc)
    · exact hversion ':' (.inr (.inl rfl))
    · exact hdigit id c hc
    · exact hversion ':' (.inr (.inl rfl))
    · exact hdigit offset c hc
  rw [size, render, renderString, pageCursor, String.toList_ofList,
    flatMap_escapeChar fun c hc => ⟨(hplain c hc).1, (hplain c hc).2.1, (hplain c hc).2.2.1⟩,
    encode_cons, encode_append, List.length_append, List.length_append,
    length_encode_ascii fun c hc => (hplain c hc).2.2.2]
  have hquote : (String.utf8EncodeChar '\x22').length = 1 := rfl
  have hquotes : (encode ['\x22']).length = 1 := rfl
  have hlength : cursorVersion.length = 7 := rfl
  simp only [List.length_append, List.length_cons, length_pad hid, length_pad hoffset, hquote, hquotes,
    hlength]

/-! ## Sizes -/

/-- The bytes that items add to an array. -/
def cost (items : List Value) : Nat := itemsSize items - 1

theorem size_array_eq (items : List Value) : size (.array items) = cost items + 2 := by
  cases items with
  | nil => exact size_array_nil
  | cons item items =>
    rw [size_array (List.cons_ne_nil _ _), cost, itemsSize_cons]
    omega

theorem itemsSize_append (a b : List Value) : itemsSize (a ++ b) = itemsSize a + itemsSize b := by
  rw [itemsSize, List.map_append, List.sum_append]
  rfl

theorem cost_concat (items : List Value) (item : Value) :
    cost (items ++ [item]) = cost items + size item + if items = [] then 0 else 1 := by
  rw [cost, itemsSize_append, itemsSize_cons, itemsSize_nil]
  cases items with
  | nil => simp [cost]
  | cons first rest =>
    rw [if_neg (List.cons_ne_nil _ _), cost, itemsSize_cons]
    omega

/-- The size of a page in terms of its template. -/
theorem size_pageFields (template : Fields) (items : List Value) (cursor : Option String)
    (elided : Nat) :
    size (.object (pageFields template items cursor elided)) + sizeAt template "items" +
        sizeAt template "truncated" + sizeAt template "elidedItems" + sizeAt template "nextCursor" =
      fieldsSize template + memberSize "items" (.array items) +
        memberSize "truncated" (.bool cursor.isSome) +
        memberSize "elidedItems" (.number (.ofNat elided)) +
        memberSize "nextCursor" (cursor.elim .null .string) + 1 := by
  have hother : ∀ {fields : Fields} {key other : String} (value : Value), other ≠ key →
      sizeAt (fields.insert key value) other = sizeAt fields other := by
    intro fields key other value hne
    rw [sizeAt, sizeAt, Fields.get?_insert_of_ne hne]
  have hitems := fieldsSize_insert template "items" (.array items)
  have htruncated := fieldsSize_insert (template.insert "items" (.array items)) "truncated"
    (.bool cursor.isSome)
  have helided := fieldsSize_insert ((template.insert "items" (.array items)).insert "truncated"
    (.bool cursor.isSome)) "elidedItems" (.number (.ofNat elided))
  have hcursor := fieldsSize_insert (((template.insert "items" (.array items)).insert "truncated"
    (.bool cursor.isSome)).insert "elidedItems" (.number (.ofNat elided))) "nextCursor"
    (cursor.elim .null .string)
  rw [hother _ (by decide)] at htruncated
  rw [hother _ (by decide), hother _ (by decide)] at helided
  rw [hother _ (by decide), hother _ (by decide), hother _ (by decide)] at hcursor
  unfold pageFields
  rw [size_object (insert_ne_nil _ _ _)]
  omega

/-- A page is no larger than the empty page that it was priced from, and its items. -/
theorem size_page_le (template : Fields) (items : List Value) {id offset offset' elided : Nat}
    (hid : id ≤ u64Max) (hoffset : offset ≤ u64Max) (hoffset' : offset' ≤ u64Max)
    (helided : elided ≤ 1) {cursor : Option String}
    (hcursor : cursor = none ∨ cursor = some (pageCursor id offset')) :
    size (.object (pageFields template items cursor elided)) ≤
      size (.object (pageFields template [] (some (pageCursor id offset)) 0)) + cost items := by
  have hpage := size_pageFields template items cursor elided
  have hempty := size_pageFields template [] (some (pageCursor id offset)) 0
  have htrue : size (.bool true) = 4 := by rw [size, render]; rfl
  have hfalse : size (.bool false) = 5 := by rw [size, render]; rfl
  have hnull : size .null = 4 := by rw [size, render]; rfl
  have hdigit : ∀ n ≤ 1, size (.number (.ofNat n)) = 1 := by
    intro n hn
    rw [size, render]
    rcases Nat.le_one_iff_eq_zero_or_eq_one.mp hn with rfl | rfl <;> rfl
  have hnumber := hdigit elided helided
  have hzero := hdigit 0 (Nat.zero_le 1)
  have hsized := size_pageCursor hid hoffset
  simp only [memberSize, Option.isSome_some, Option.elim_some, size_array_eq, htrue, hzero,
    hsized] at hempty
  rcases hcursor with rfl | rfl
  · simp only [memberSize, Option.isSome_none, Option.elim_none, size_array_eq, hfalse, hnumber,
      hnull] at hpage
    have hnil : cost [] = 0 := rfl
    omega
  · have hsized' := size_pageCursor hid hoffset'
    simp only [memberSize, Option.isSome_some, Option.elim_some, size_array_eq, htrue, hnumber,
      hsized'] at hpage
    have hnil : cost [] = 0 := rfl
    omega

/-! ## Filling a page -/

/-- The item is served as it is, or cut. -/
def Serves (item served : Value) : Prop := served = item ∨ ∃ room, elideToFit item room = some served

theorem size_elideNext {room originalBytes : Nat} {candidates : List (String × Nat)} {work : Value}
    {cut : List Value} {served : Value}
    (h : elideNext room originalBytes candidates work cut = some served) : size served ≤ room := by
  induction candidates generalizing work cut with
  | nil => cases h
  | cons candidate candidates ih =>
    obtain ⟨pointer, length⟩ := candidate
    rw [elideNext] at h
    split at h
    · cases h
    · split at h
      · dsimp only at h
        split at h
        · next hfits =>
          cases h
          exact hfits
        · exact ih h
      · cases h

theorem size_elideToFit {item served : Value} {room : Nat} (h : elideToFit item room = some served) :
    size served ≤ room := by
  unfold elideToFit at h
  split at h
  · exact size_elideNext h
  · cases h

theorem saturatingAdd_le {a b c : Nat} (h : saturatingAdd a b ≤ c) (hc : c < usizeMax) :
    saturatingAdd a b = a + b := by
  rw [saturatingAdd] at h ⊢
  omega

/-- The bytes of the page with another item are counted right within the bound. -/
theorem candidateBytes_eq {used : Nat} {item : Value} {pageItems : List Value} {base : Nat}
    (hused : used = base + cost pageItems)
    (h : candidateBytes used item pageItems ≤ pageResultCapBytes) :
    candidateBytes used item pageItems = base + cost (pageItems ++ [item]) := by
  have hcap : pageResultCapBytes < usizeMax := by decide
  unfold candidateBytes at h ⊢
  have houter := saturatingAdd_le h hcap
  rw [houter] at h ⊢
  have hinner : saturatingAdd used (size item) = used + size item :=
    saturatingAdd_le (Nat.le_trans (Nat.le_add_right _ _) h) hcap
  rw [hinner, cost_concat, hused]
  omega

/-- What filling a page does: it serves the next items, some if there are any, within the bound. -/
theorem fill_spec {limit : Nat} {rest : List Value} {used : Nat} {pageItems : List Value}
    {nextOffset : Nat} {filled : Filled}
    (h : fill limit rest used pageItems nextOffset = .ok filled) :
    ∃ taken more served, rest = taken ++ more ∧ filled.items = pageItems ++ served ∧
      filled.nextOffset = nextOffset + taken.length ∧ List.Forall₂ Serves taken served ∧
      filled.elided ≤ 1 ∧ (rest ≠ [] → pageItems.length < limit → pageItems = [] → served ≠ []) ∧
      ∀ base, used = base + cost pageItems → used ≤ pageResultCapBytes →
        base + cost filled.items ≤ pageResultCapBytes := by
  induction rest generalizing used pageItems nextOffset with
  | nil =>
    cases h
    refine ⟨[], [], [], rfl, (List.append_nil _).symm, rfl, .nil, Nat.zero_le 1,
      fun hne => absurd rfl hne, ?_⟩
    rintro base rfl hcap
    exact hcap
  | cons item rest ih =>
    rw [fill] at h
    split at h
    · split at h
      · split at h
        · next hnil =>
          subst hnil
          cases hshrunk : elideToFit item (pageResultCapBytes - used) with
          | none =>
            rw [hshrunk] at h
            cases h
          | some shrunk =>
            rw [hshrunk] at h
            cases h
            have hsize := size_elideToFit hshrunk
            refine ⟨[item], rest, [shrunk], rfl, rfl, rfl, .cons (.inr ⟨_, hshrunk⟩) .nil, le_rfl,
              fun _ _ _ => List.cons_ne_nil _ _, ?_⟩
            intro base hused hcap
            have hnone : cost [] = 0 := rfl
            have hone : cost [shrunk] = size shrunk := by simp [cost]
            rw [hone]
            omega
        · next hsome =>
          cases h
          refine ⟨[], item :: rest, [], rfl, (List.append_nil _).symm, rfl, .nil, Nat.zero_le 1,
            fun _ _ hnil => absurd hnil hsome, ?_⟩
          rintro base rfl hcap
          exact hcap
      · next hfits =>
        obtain ⟨taken, more, served, rfl, hitems, hoffset, hserves, helided, -, hcost⟩ := ih h
        refine ⟨item :: taken, more, item :: served, rfl, ?_, ?_, .cons (.inl rfl) hserves, helided,
          fun _ _ _ => List.cons_ne_nil _ _, ?_⟩
        · rw [hitems, List.append_assoc]
          rfl
        · rw [hoffset, List.length_cons]
          omega
        · intro base hused _
          have hle := Nat.le_of_not_gt hfits
          exact hcost base (candidateBytes_eq hused hle) hle
    · next hfull =>
      cases h
      refine ⟨[], item :: rest, [], rfl, (List.append_nil _).symm, rfl, .nil, Nat.zero_le 1,
        fun _ hroom => absurd hroom hfull, ?_⟩
      rintro base rfl hcap
      exact hcap

/-! ## A page -/

def pageField (page : Value) (key : String) : Option Value :=
  match page with
  | .object fields => Fields.get? fields key
  | _ => none

def itemsOf (page : Value) : List Value :=
  match pageField page "items" with
  | some (.array items) => items
  | _ => []

def nextCursorOf (page : Value) : Option String :=
  match pageField page "nextCursor" with
  | some (.string cursor) => some cursor
  | _ => none

section

variable (template : Fields) (items : List Value) (cursor : Option String) (elided : Nat)

theorem pageField_nextCursor : pageField (.object (pageFields template items cursor elided)) "nextCursor" =
    some (cursor.elim .null .string) :=
  Fields.get?_insert_self _ _ _

theorem pageField_truncated : pageField (.object (pageFields template items cursor elided)) "truncated" =
    some (.bool cursor.isSome) := by
  unfold pageField pageFields
  dsimp only
  rw [Fields.get?_insert_of_ne (by decide), Fields.get?_insert_of_ne (by decide),
    Fields.get?_insert_self]

theorem itemsOf_pageFields : itemsOf (.object (pageFields template items cursor elided)) = items := by
  have hitems : pageField (.object (pageFields template items cursor elided)) "items" =
      some (.array items) := by
    unfold pageField pageFields
    dsimp only
    rw [Fields.get?_insert_of_ne (by decide), Fields.get?_insert_of_ne (by decide),
      Fields.get?_insert_of_ne (by decide), Fields.get?_insert_self]
  rw [itemsOf, hitems]

theorem nextCursorOf_pageFields :
    nextCursorOf (.object (pageFields template items cursor elided)) = cursor := by
  rw [nextCursorOf, pageField_nextCursor]
  cases cursor <;> rfl

end

/-- The page without items fits the bound. -/
def Snapshot.Fits (snapshot : Snapshot) : Prop :=
  ∀ empty, renderPage snapshot.template [] (some (pageCursor snapshot.id 0)) 0 = .ok empty →
    size empty ≤ pageResultCapBytes

/-- The cursor to an offset, unless it is the end. -/
def Snapshot.cursorAt (snapshot : Snapshot) (offset : Nat) : Option String :=
  if offset < snapshot.items.length then some (pageCursor snapshot.id offset) else none

/-- The page shows the items of the snapshot from one offset to the next. -/
structure PageOf (snapshot : Snapshot) (offset next : Nat) (page : Value) : Prop where
  le : offset ≤ next
  le_length : next ≤ snapshot.items.length
  serves : List.Forall₂ Serves ((snapshot.items.take next).drop offset) (itemsOf page)
  progress : offset < snapshot.items.length → offset < next
  cursor : nextCursorOf page = snapshot.cursorAt next
  nextCursor : pageField page "nextCursor" = some ((nextCursorOf page).elim .null .string)
  truncated : pageField page "truncated" = some (.bool (nextCursorOf page).isSome)
  bounded : snapshot.Fits → size page ≤ pageResultCapBytes

theorem Snapshot.page_eq_ok {snapshot : Snapshot} {fields : Fields} {offset limit : Nat} {page : Value}
    (htemplate : snapshot.template = .object fields) (hid : snapshot.id ≤ u64Max)
    (hoffset : offset ≤ snapshot.items.length) (hlimit : 1 ≤ limit)
    (h : snapshot.page offset limit = .ok page) : ∃ next, PageOf snapshot offset next page := by
  unfold Snapshot.page at h
  rw [htemplate] at h
  obtain ⟨empty, hempty, hpage⟩ := bind_ok_iff.mp h
  obtain ⟨filled, hfilled, hrender⟩ := bind_ok_iff.mp hpage
  clear h hpage
  cases hempty
  obtain ⟨taken, more, served, hrest, hitems, hnext, hserves, helided, hsome, hcost⟩ :=
    fill_spec hfilled
  rw [List.nil_append] at hitems
  have hlength : snapshot.items.length = offset + taken.length + more.length := by
    have hlengths := congrArg List.length hrest
    rw [List.length_drop, List.length_append] at hlengths
    omega
  have htaken : (snapshot.items.take (offset + taken.length)).drop offset = taken := by
    rw [List.drop_take, Nat.add_sub_cancel_left, hrest, List.take_left]
  have hmax := snapshot.length_le
  have husize : usizeMax = u64Max := rfl
  have hwidth : offset ≤ u64Max ∧ offset + taken.length ≤ u64Max := by omega
  rw [hnext] at hrender
  cases hrender
  refine ⟨offset + taken.length, by omega, by omega, ?_, ?_, ?_, ?_, ?_, ?_⟩
  · rw [itemsOf_pageFields, htaken, hitems]
    exact hserves
  · intro hlt
    have hne : snapshot.items.drop offset ≠ [] := by
      intro hnil
      have hzero := congrArg List.length hnil
      rw [List.length_drop, List.length_nil] at hzero
      omega
    have hserved := List.length_pos_of_ne_nil (hsome hne hlimit rfl)
    rw [← hserves.length_eq] at hserved
    omega
  · rw [nextCursorOf_pageFields]
    rfl
  · rw [nextCursorOf_pageFields]
    exact pageField_nextCursor _ _ _ _
  · rw [nextCursorOf_pageFields]
    exact pageField_truncated _ _ _ _
  · intro hfits
    have hstart := hfits _ (by rw [htemplate]; rfl)
    have hempty := size_page_le fields [] hid (Nat.zero_le u64Max) hwidth.1 (Nat.zero_le 1) (.inr rfl)
    have hnone : cost [] = 0 := rfl
    have hbound := hcost (size (.object (pageFields fields [] (some (pageCursor snapshot.id offset)) 0)))
      (by rw [hnone, Nat.add_zero]) (by omega)
    have hcursor : snapshot.cursorAt (offset + taken.length) = none ∨
        snapshot.cursorAt (offset + taken.length) =
          some (pageCursor snapshot.id (offset + taken.length)) := by
      unfold Snapshot.cursorAt
      split
      · exact .inr rfl
      · exact .inl rfl
    have hsized := size_page_le fields filled.items hid hwidth.1 hwidth.2 helided hcursor
    unfold Snapshot.cursorAt at hsized
    omega

/-- A page fails for an item that is too large, and for nothing else. -/
theorem Snapshot.page_cases {snapshot : Snapshot} {fields : Fields}
    (htemplate : snapshot.template = .object fields) (offset limit : Nat) :
    (∃ page, snapshot.page offset limit = .ok page) ∨
      snapshot.page offset limit = .error .itemTooLarge := by
  have hfill : ∀ (rest : List Value) (used : Nat) (pageItems : List Value) (nextOffset : Nat),
      (∃ filled, fill limit rest used pageItems nextOffset = .ok filled) ∨
        fill limit rest used pageItems nextOffset = .error .itemTooLarge := by
    intro rest
    induction rest with
    | nil => exact fun _ _ _ => .inl ⟨_, rfl⟩
    | cons item rest ih =>
      intro used pageItems nextOffset
      rw [fill]
      split
      · split
        · split
          · cases elideToFit item (pageResultCapBytes - used) with
            | none => exact .inr rfl
            | some shrunk => exact .inl ⟨_, rfl⟩
          · exact .inl ⟨_, rfl⟩
        · exact ih _ _ _
      · exact .inl ⟨_, rfl⟩
  unfold Snapshot.page
  rw [htemplate]
  rcases hfill (snapshot.items.drop offset)
    (size (.object (pageFields fields [] (some (pageCursor snapshot.id offset)) 0))) [] offset with
    ⟨filled, hfilled⟩ | herror
  · exact .inl ⟨_, bind_ok_iff.mpr ⟨_, rfl, bind_ok_iff.mpr ⟨filled, hfilled, rfl⟩⟩⟩
  · refine .inr ?_
    change (fill limit (snapshot.items.drop offset) _ [] offset >>= _) = _
    rw [herror]
    rfl

/-! ## The cache -/

structure Call where
  method : String
  fingerprint : String
  limit : Option Nat
  cursor : Option String
  prepared : Option PreparedSnapshot

namespace PageCache

def call (cache : PageCache) (call : Call) : PageCache :=
  (cache.pageAt call.method call.fingerprint call.limit call.cursor call.prepared).2

def calls (cache : PageCache) (calls : List Call) : PageCache := calls.foldl call cache

/-- The number of the snapshot that comes after so many others. -/
def number (count : Nat) : Nat := count % u64Max + 1

theorem succId_number (count : Nat) : succId (number count) = number (count + 1) := by
  have hmax : u64Max = 18446744073709551615 := rfl
  unfold succId number
  rw [hmax]
  split <;> omega

/-- The snapshots are the last ones that were retained, and few. -/
structure Numbered (cache : PageCache) : Prop where
  few : cache.snapshots.length ≤ maxSnapshots
  numbers : ∃ start, cache.snapshots.map (·.id) =
      (List.range' start cache.snapshots.length).map number ∧
    cache.nextId = number (start + cache.snapshots.length)

theorem numbered_empty (budgetBytes : Nat) : ({ budgetBytes } : PageCache).Numbered :=
  ⟨Nat.zero_le _, 0, rfl, rfl⟩

theorem evict_suffix (budget bytes : Nat) (snapshots : List Snapshot) (used : Nat) :
    (evict budget bytes snapshots used).1 <:+ snapshots ∧
      (evict budget bytes snapshots used).1.length ≠ maxSnapshots := by
  induction snapshots generalizing used with
  | nil => exact ⟨List.suffix_refl _, Nat.zero_ne_add_one 31⟩
  | cons oldest rest ih =>
    rw [evict]
    split
    · obtain ⟨hsuffix, hlength⟩ := ih (used - oldest.bytes)
      exact ⟨hsuffix.trans (List.suffix_cons _ _), hlength⟩
    · next hkeep => exact ⟨List.suffix_refl _, fun h => hkeep (.inl h)⟩

theorem Numbered.retain {cache : PageCache} (h : cache.Numbered) (method fingerprint : String)
    (prepared : PreparedSnapshot) : (cache.retain method fingerprint prepared).Numbered := by
  obtain ⟨hfew, start, hnumbers, hnext⟩ := h
  obtain ⟨⟨dropped, hdropped⟩, hlength⟩ :=
    evict_suffix cache.budgetBytes prepared.bytes cache.snapshots cache.usedBytes
  unfold PageCache.retain
  rcases hevict : evict cache.budgetBytes prepared.bytes cache.snapshots cache.usedBytes with
    ⟨snapshots, used⟩
  rw [hevict] at hdropped hlength
  dsimp only at hdropped hlength ⊢
  have hsum : dropped.length + snapshots.length = cache.snapshots.length := by
    rw [← hdropped, List.length_append]
  have hids : snapshots.map (·.id) =
      (List.range' (start + dropped.length) snapshots.length).map number := by
    rw [← hsum, ← hdropped, List.map_append, ← List.range'_append_1, List.map_append] at hnumbers
    exact (List.append_inj hnumbers (by simp)).2
  refine ⟨?_, start + dropped.length, ?_, ?_⟩
  · rw [List.length_append, List.length_singleton]
    omega
  · have hnew : (cache.nextSnapshot method fingerprint prepared).id =
        number (start + dropped.length + snapshots.length) := by
      rw [Nat.add_assoc, hsum]
      exact hnext
    rw [List.map_append, List.length_append, List.length_singleton, List.range'_1_concat,
      List.map_append, hids, List.map_singleton, List.map_singleton, hnew]
  · have hcount : start + (dropped.length + snapshots.length) + 1 =
        start + dropped.length + (snapshots.length + 1) := by omega
    rw [hnext, succId_number, List.length_append, List.length_singleton, ← hsum, hcount]

theorem Numbered.call {cache : PageCache} (h : cache.Numbered) (call : Call) :
    (cache.call call).Numbered := by
  unfold PageCache.call PageCache.pageAt
  dsimp only
  split
  · split
    · split <;> exact h
    · split
      · exact h
      · exact h.retain _ _ _
  · exact h

theorem Numbered.calls {cache : PageCache} (h : cache.Numbered) (calls : List Call) :
    (cache.calls calls).Numbered := by
  induction calls generalizing cache with
  | nil => exact h
  | cons call calls ih => exact ih (h.call call)

theorem Numbered.id_le {cache : PageCache} (h : cache.Numbered) : cache.nextId ≤ u64Max := by
  obtain ⟨-, start, -, hnext⟩ := h
  rw [hnext, number]
  exact Nat.mod_lt _ (by decide)

/-- A retained snapshot is found by its number. -/
theorem Numbered.find? {cache : PageCache} (h : cache.Numbered) {snapshot : Snapshot}
    (hmem : snapshot ∈ cache.snapshots) :
    cache.snapshots.find? (fun other => other.id = snapshot.id) = some snapshot := by
  obtain ⟨hfew, start, hnumbers, -⟩ := h
  have hnodup : (cache.snapshots.map (·.id)).Nodup := by
    rw [hnumbers]
    refine List.Nodup.map_on ?_ List.nodup_range'
    intro a ha b hb heq
    rw [List.mem_range'_1] at ha hb
    have hmax : u64Max = 18446744073709551615 := rfl
    have hcount : maxSnapshots = 32 := rfl
    unfold number at heq
    rw [hmax] at heq
    omega
  cases hfind : cache.snapshots.find? (fun other => other.id = snapshot.id) with
  | none =>
    have hnone := List.find?_eq_none.mp hfind snapshot hmem
    simp at hnone
  | some other =>
    have hother := List.mem_of_find?_eq_some hfind
    have hid : other.id = snapshot.id := by simpa using List.find?_some hfind
    exact congrArg some (List.inj_on_of_nodup_map hnodup hother hmem hid)

theorem serve_of_mem {cache : PageCache} (h : cache.Numbered) {snapshot : Snapshot}
    (hmem : snapshot ∈ cache.snapshots) (limit : Nat) {offset : Nat}
    (hoffset : offset ≤ snapshot.items.length) :
    cache.serve snapshot.method snapshot.fingerprint limit snapshot.id offset =
      snapshot.page offset limit := by
  unfold PageCache.serve
  rw [h.find? hmem]
  change (ensure _ _ >>= fun _ => ensure _ _ >>= fun _ => snapshot.page offset limit) = _
  rw [ensure, ensure, if_pos ⟨rfl, rfl⟩, if_pos hoffset]
  rfl

end PageCache

/-! ## Walks -/

/-- A client asks for the page at its cursor, whatever calls others have made, while the snapshot is
retained: the pages that it gets, and the cursor that it has then. -/
inductive Walk (snapshot : Snapshot) : PageCache → Option String → List Value → Option String → Prop
  | done {cache : PageCache} {cursor : Option String} : Walk snapshot cache cursor [] cursor
  | next {cache cache' : PageCache} {cursor : String} {others : List Call} {limit : Nat} {page : Value}
      {pages : List Value} {final : Option String}
      (retained : snapshot ∈ (cache.calls others).snapshots)
      (hlimit : 1 ≤ limit ∧ limit ≤ maxPageItems)
      (served : (cache.calls others).pageAt snapshot.method snapshot.fingerprint (some limit)
        (some cursor) none = (.ok page, cache'))
      (rest : Walk snapshot cache' (nextCursorOf page) pages final) :
      Walk snapshot cache (some cursor) (page :: pages) final

/-- The call for the page at an offset of a retained snapshot. -/
theorem pageAt_cursor {cache : PageCache} (h : cache.Numbered) {snapshot : Snapshot}
    (hid : snapshot.id ≤ u64Max) (hmem : snapshot ∈ cache.snapshots) {limit offset : Nat}
    (hlimit : 1 ≤ limit ∧ limit ≤ maxPageItems) (hoffset : offset ≤ snapshot.items.length) :
    cache.pageAt snapshot.method snapshot.fingerprint (some limit)
        (some (pageCursor snapshot.id offset)) none =
      (snapshot.page offset limit, cache) := by
  have hmax : offset ≤ u64Max := Nat.le_trans hoffset snapshot.length_le
  unfold PageCache.pageAt
  dsimp only [Option.getD_some]
  rw [if_pos hlimit, parseCursor_pageCursor hid hmax]
  dsimp only
  rw [PageCache.serve_of_mem h hmem limit hoffset]

/-- A page from before the end has items. -/
theorem PageOf.items_ne_nil {snapshot : Snapshot} {offset next : Nat} {page : Value}
    (h : PageOf snapshot offset next page) (hlt : offset < snapshot.items.length) :
    itemsOf page ≠ [] := by
  have hlength := h.serves.length_eq
  have hprogress := h.progress hlt
  have hle := h.le_length
  intro hnil
  rw [hnil, List.length_drop, List.length_take, List.length_nil] at hlength
  omega

/-- What a walk from an offset has seen when it is at another one. -/
structure Seen (snapshot : Snapshot) (offset next : Nat) (pages : List Value)
    (final : Option String) : Prop where
  le : offset ≤ next
  le_length : next ≤ snapshot.items.length
  serves : List.Forall₂ Serves ((snapshot.items.take next).drop offset) (pages.flatMap itemsOf)
  count : snapshot.items ≠ [] → pages.length ≤ next - offset
  cursor : final = snapshot.cursorAt next
  inner : ∀ page ∈ pages.dropLast, nextCursorOf page ≠ none
  last : ∀ page ∈ pages.getLast?, nextCursorOf page = final
  pages : ∀ page ∈ pages, ∃ start stop, PageOf snapshot start stop page ∧
    (snapshot.items ≠ [] → start < snapshot.items.length)

theorem take_drop_append (items : List Value) {a b c : Nat} (hab : a ≤ b) (hbc : b ≤ c) :
    (items.take b).drop a ++ (items.take c).drop b = (items.take c).drop a := by
  have hsplit := List.take_append_drop b (items.take c)
  rw [List.take_take, Nat.min_eq_left hbc] at hsplit
  conv_rhs => rw [← hsplit, List.drop_append]
  congr 1
  rcases Nat.le_total b items.length with hb | hb
  · rw [List.length_take, Nat.min_eq_left hb, Nat.sub_eq_zero_of_le hab, List.drop_zero]
  · have hnil : (items.take c).drop b = [] := by
      refine List.drop_eq_nil_of_le ?_
      rw [List.length_take]
      omega
    rw [hnil, List.drop_nil]

theorem Walk.cursor_ne_none {snapshot : Snapshot} {cache : PageCache} {cursor final : Option String}
    {page : Value} {pages : List Value} (h : Walk snapshot cache cursor (page :: pages) final) :
    cursor ≠ none := by
  cases h
  exact Option.some_ne_none _

theorem Walk.final_eq {snapshot : Snapshot} {cache : PageCache} {cursor final : Option String}
    (h : Walk snapshot cache cursor [] final) : cursor = final := by
  cases h
  rfl

theorem Seen.cons {snapshot : Snapshot} {cache : PageCache} {offset mid next : Nat} {page : Value}
    {pages : List Value} {final : Option String} (hpage : PageOf snapshot offset mid page)
    (hstart : snapshot.items ≠ [] → offset < snapshot.items.length)
    (hwalk : Walk snapshot cache (nextCursorOf page) pages final)
    (h : Seen snapshot mid next pages final) : Seen snapshot offset next (page :: pages) final where
  le := hpage.le.trans h.le
  le_length := h.le_length
  cursor := h.cursor
  serves := by
    rw [List.flatMap_cons, ← take_drop_append _ hpage.le h.le]
    exact List.rel_append hpage.serves h.serves
  count hne := by
    have hprogress := hpage.progress (hstart hne)
    have hcount := h.count hne
    have hle := h.le
    rw [List.length_cons]
    omega
  inner := by
    cases pages with
    | nil => exact nofun
    | cons second more =>
      rw [List.dropLast_cons_cons]
      intro other hother
      rcases List.mem_cons.mp hother with rfl | hother
      · exact hwalk.cursor_ne_none
      · exact h.inner other hother
  last := by
    cases pages with
    | nil =>
      intro other hother
      obtain rfl : page = other := Option.some.inj hother
      exact hwalk.final_eq
    | cons second more =>
      rw [List.getLast?_cons_cons]
      exact h.last
  pages other hother := by
    rcases List.mem_cons.mp hother with rfl | hother
    · exact ⟨offset, mid, hpage, hstart⟩
    · exact h.pages other hother

theorem Walk.seen {snapshot : Snapshot} {fields : Fields}
    (htemplate : snapshot.template = .object fields) (hid : snapshot.id ≤ u64Max) {cache : PageCache}
    {cursor final : Option String} {pages : List Value} (h : Walk snapshot cache cursor pages final)
    (hnumbered : cache.Numbered) {offset : Nat} (hoffset : offset ≤ snapshot.items.length)
    (hcursor : cursor = snapshot.cursorAt offset) :
    ∃ next, Seen snapshot offset next pages final := by
  induction h generalizing offset with
  | done =>
    refine ⟨offset, le_rfl, hoffset, ?_, fun _ => Nat.zero_le _, hcursor, nofun, nofun, nofun⟩
    rw [List.drop_eq_nil_of_le (by simp)]
    exact .nil
  | @next cache cache' cursor others limit page pages final retained hlimit served rest ih =>
    have hlt : offset < snapshot.items.length := by
      by_contra hge
      rw [Snapshot.cursorAt, if_neg hge] at hcursor
      cases hcursor
    rw [Snapshot.cursorAt, if_pos hlt] at hcursor
    cases hcursor
    rw [pageAt_cursor (hnumbered.calls others) hid retained hlimit hoffset, Prod.mk.injEq] at served
    obtain ⟨hpage, rfl⟩ := served
    obtain ⟨mid, hpageOf⟩ := Snapshot.page_eq_ok htemplate hid hoffset hlimit.1 hpage
    obtain ⟨next, hseen⟩ := ih (hnumbered.calls others) hpageOf.le_length hpageOf.cursor
    exact ⟨next, hseen.cons hpageOf (fun _ => hlt) rest⟩

theorem template_of_prepare {envelope : Value} {prepared : PreparedSnapshot}
    (h : prepareSnapshot envelope = .ok prepared) : ∃ fields, prepared.template = .object fields := by
  unfold prepareSnapshot at h
  split at h
  · split at h
    · split at h
      · cases h
        exact ⟨_, rfl⟩
      · cases h
    · cases h
  · cases h

/-- The call for the first page. -/
theorem pagePrepared_eq {cache : PageCache} (h : cache.Numbered) {method fingerprint : String}
    {limit : Nat} (hlimit : 1 ≤ limit ∧ limit ≤ maxPageItems) (prepared : PreparedSnapshot) :
    cache.pagePrepared method fingerprint (some limit) prepared =
      ((cache.nextSnapshot method fingerprint prepared).page 0 limit,
        cache.retain method fingerprint prepared) := by
  have hmem : cache.nextSnapshot method fingerprint prepared ∈
      (cache.retain method fingerprint prepared).snapshots := by
    unfold PageCache.retain
    exact List.mem_append_right _ (List.mem_singleton_self _)
  have hserve := PageCache.serve_of_mem (h.retain method fingerprint prepared) hmem
    limit (Nat.zero_le _)
  unfold PageCache.pagePrepared PageCache.pageAt
  dsimp only [Option.getD_some]
  rw [if_pos hlimit]
  exact Prod.ext hserve rfl

/-- A client that follows the cursors, while its snapshot is retained, sees the items in order, once
each. Every page is marked as the last one or not, shows an item if there is one left, and fits the
bound if the page without items does; and the client can go on until it has seen them all, unless an
item is too large. -/
theorem cursor_walk_exact {envelope : Value} {prepared : PreparedSnapshot}
    (hprepared : prepareSnapshot envelope = .ok prepared) (budgetBytes : Nat) (history : List Call)
    (method fingerprint : String) {limit : Nat} (hlimit : 1 ≤ limit ∧ limit ≤ maxPageItems)
    {first : Value} {cache : PageCache}
    (hfirst : (({ budgetBytes } : PageCache).calls history).pagePrepared method fingerprint
      (some limit) prepared = (.ok first, cache)) :
    ∃ snapshot, snapshot.toPreparedSnapshot = prepared ∧ snapshot ∈ cache.snapshots ∧
      ∀ rest final, Walk snapshot cache (nextCursorOf first) rest final →
        let pages := first :: rest
        (∃ shown, shown <+: prepared.items ∧
          List.Forall₂ Serves shown (pages.flatMap itemsOf) ∧
          (final = none ↔ shown = prepared.items)) ∧
        (prepared.items ≠ [] → ∀ page ∈ pages, itemsOf page ≠ []) ∧
        pages.length ≤ max 1 prepared.items.length ∧
        (∀ page ∈ pages.dropLast, nextCursorOf page ≠ none) ∧
        (∀ page ∈ pages.getLast?, nextCursorOf page = final) ∧
        (∀ page ∈ pages,
          pageField page "nextCursor" = some ((nextCursorOf page).elim .null .string) ∧
          pageField page "truncated" = some (.bool (nextCursorOf page).isSome)) ∧
        (snapshot.Fits → ∀ page ∈ pages, size page ≤ pageResultCapBytes) ∧
        ∀ cursor, final = some cursor → ∀ others limit, 1 ≤ limit ∧ limit ≤ maxPageItems →
          snapshot ∈ (cache.calls others).snapshots →
            (∃ page, ((cache.calls others).pageAt method fingerprint (some limit) (some cursor)
              none).1 = .ok page) ∨
            ((cache.calls others).pageAt method fingerprint (some limit) (some cursor) none).1 =
              .error .itemTooLarge := by
  have hnumbered := (PageCache.numbered_empty budgetBytes).calls history
  rw [pagePrepared_eq hnumbered hlimit, Prod.mk.injEq] at hfirst
  obtain ⟨hpage, rfl⟩ := hfirst
  obtain ⟨fields, htemplate⟩ := template_of_prepare hprepared
  have hretained := hnumbered.retain method fingerprint prepared
  have hid := hnumbered.id_le
  generalize ({ budgetBytes } : PageCache).calls history = start at *
  refine ⟨start.nextSnapshot method fingerprint prepared, rfl, ?_, ?_⟩
  · unfold PageCache.retain
    exact List.mem_append_right _ (List.mem_singleton_self _)
  intro rest final hwalk pages
  obtain ⟨mid, hpageOf⟩ := Snapshot.page_eq_ok htemplate hid (Nat.zero_le _) hlimit.1 hpage
  obtain ⟨next, hrest⟩ := hwalk.seen htemplate hid hretained hpageOf.le_length hpageOf.cursor
  have hseen : Seen _ 0 next pages final := hrest.cons hpageOf List.length_pos_of_ne_nil hwalk
  have hle : next ≤ prepared.items.length := hseen.le_length
  refine ⟨⟨prepared.items.take next, List.take_prefix _ _, hseen.serves, ?_⟩, ?_, ?_, hseen.inner,
    hseen.last, ?_, ?_, ?_⟩
  · rw [hseen.cursor, List.take_eq_self_iff]
    unfold Snapshot.cursorAt
    split
    · next hlt => exact ⟨nofun, fun hge => absurd hlt (Nat.not_lt.mpr hge)⟩
    · next hge => exact ⟨fun _ => Nat.not_lt.mp hge, fun _ => rfl⟩
  · intro hne page hmem
    obtain ⟨begin, stop, hpage, hbegin⟩ := hseen.pages page hmem
    exact hpage.items_ne_nil (hbegin hne)
  · by_cases hne : prepared.items = []
    · have hnone : nextCursorOf first = none := by
        rw [hpageOf.cursor, Snapshot.cursorAt, if_neg]
        intro hlt
        have hzero : prepared.items.length = 0 := by rw [hne]; rfl
        exact absurd (hzero ▸ hlt) (Nat.not_lt_zero mid)
      cases rest with
      | nil => exact Nat.le_max_left 1 _
      | cons page more => exact absurd hnone hwalk.cursor_ne_none
    · have hcount := hseen.count hne
      omega
  · intro page hmem
    obtain ⟨begin, stop, hpage, -⟩ := hseen.pages page hmem
    exact ⟨hpage.nextCursor, hpage.truncated⟩
  · intro hfits page hmem
    obtain ⟨begin, stop, hpage, -⟩ := hseen.pages page hmem
    exact hpage.bounded hfits
  · intro cursor hfinal others limit' hlimit' hmem
    have hcursor : cursor = pageCursor start.nextId next := by
      rw [hseen.cursor, Snapshot.cursorAt] at hfinal
      split at hfinal
      · exact (Option.some.inj hfinal).symm
      · cases hfinal
    rw [hcursor]
    have hcall := pageAt_cursor (hretained.calls others) hid hmem hlimit' hseen.le_length
    have hserved := congrArg Prod.fst hcall
    have hsame : (start.nextSnapshot method fingerprint prepared).template = .object fields := htemplate
    rcases Snapshot.page_cases hsame next limit' with ⟨page, hok⟩ | htoo
    · exact .inl ⟨page, hserved.trans hok⟩
    · exact .inr (hserved.trans htoo)

/-! A collection of two items, on pages of one. -/

def sampleItem (n : Nat) : Value := .object [("index", .number (.ofNat n))]

def sampleEnvelope : Value :=
  .object [("items", .array [sampleItem 0, sampleItem 1]), ("nextCursor", .null)]

def samplePrepared : PreparedSnapshot where
  template := .object [("nextCursor", .null), ("items", .array [])]
  items := [sampleItem 0, sampleItem 1]
  bytes := 52
  length_le := by decide

def samplePage (n : Nat) (cursor : Option String) : Value :=
  .object (pageFields [("nextCursor", .null), ("items", .array [])] [sampleItem n] cursor 0)

def sampleSnapshot : Snapshot := ({} : PageCache).nextSnapshot "query.jobs" "stable" samplePrepared

theorem sample_first : ({} : PageCache).pagePrepared "query.jobs" "stable" (some 1) samplePrepared =
    (.ok (samplePage 0 (some (pageCursor 1 1))),
      ({} : PageCache).retain "query.jobs" "stable" samplePrepared) := by
  have hpage : sampleSnapshot.page 0 1 = .ok (samplePage 0 (some (pageCursor 1 1))) := by
    decide +kernel
  rw [pagePrepared_eq (PageCache.numbered_empty _) (by decide), ← sampleSnapshot, hpage]

theorem sample_second : Walk sampleSnapshot
    (({} : PageCache).retain "query.jobs" "stable" samplePrepared)
    (some (pageCursor 1 1)) [samplePage 1 none] none := by
  have hlast : nextCursorOf (samplePage 1 none) = none := nextCursorOf_pageFields _ _ none 0
  have hpage : sampleSnapshot.page 1 1 = .ok (samplePage 1 none) := by decide +kernel
  have hmem : sampleSnapshot ∈
      (({} : PageCache).retain "query.jobs" "stable" samplePrepared).snapshots :=
    List.mem_singleton_self _
  have hone : 1 ≤ 1 ∧ 1 ≤ maxPageItems := by decide
  have hoffset : 1 ≤ sampleSnapshot.items.length := by decide
  have hcall := pageAt_cursor ((PageCache.numbered_empty _).retain _ _ _) (by decide) hmem hone hoffset
  rw [hpage] at hcall
  have hretained : sampleSnapshot ∈ ((({} : PageCache).retain "query.jobs" "stable"
      samplePrepared).calls []).snapshots := hmem
  have hrest : Walk sampleSnapshot (({} : PageCache).retain "query.jobs" "stable" samplePrepared)
      (nextCursorOf (samplePage 1 none)) [] none := by
    rw [hlast]
    exact .done
  exact .next hretained hone hcall hrest

/-- Two pages show the two items. -/
theorem cursor_walk_exact_two :
    List.Forall₂ Serves samplePrepared.items
      (itemsOf (samplePage 0 (some (pageCursor 1 1))) ++ itemsOf (samplePage 1 none)) := by
  have hcursor : nextCursorOf (samplePage 0 (some (pageCursor 1 1))) = some (pageCursor 1 1) :=
    nextCursorOf_pageFields _ _ _ 0
  have hprepared : prepareSnapshot sampleEnvelope = .ok samplePrepared := rfl
  obtain ⟨snapshot, -, hmem, hwalks⟩ := cursor_walk_exact hprepared snapshotBudgetBytes []
    "query.jobs" "stable" (by decide) sample_first
  obtain rfl : snapshot = sampleSnapshot := List.mem_singleton.mp hmem
  have hwalk := sample_second
  rw [← hcursor] at hwalk
  obtain ⟨⟨shown, -, hserves, hfinal⟩, -⟩ := hwalks _ _ hwalk
  rw [hfinal.mp rfl, List.flatMap_cons, List.flatMap_cons, List.flatMap_nil, List.append_nil] at hserves
  exact hserves

end Tally.Pagination
