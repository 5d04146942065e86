import Mathlib.Data.List.Sort
import Mathlib.Data.String.Basic
import Tally.Lib.JsonGrammar
import Tally.Lib.JsonText

/-!
# JSON up to the order of members

Values are alike when they differ in the order of the members of objects only. Compact text with the
members in the order of their names is the same for two values exactly when they are alike
(`writeSorted_eq_iff`). It is a JSON text of a value that is alike (`isJsonText_writeSorted`), and that
value is read in it unless the JSON library reads something else (`read_writeSorted`).
-/

namespace Tally.Lib

/-! ## Alike -/

mutual

/-- Equal up to the order of the members of objects. -/
inductive Alike : Value → Value → Prop
  | null : Alike .null .null
  | bool (b : Bool) : Alike (.bool b) (.bool b)
  | number (n : Number) : Alike (.number n) (.number n)
  | string (s : String) : Alike (.string s) (.string s)
  | array {a b : List Value} : AlikeItems a b → Alike (.array a) (.array b)
  | object {a b c : List (String × Value)} : AlikeFields a b → b.Perm c → Alike (.object a) (.object c)

inductive AlikeItems : List Value → List Value → Prop
  | nil : AlikeItems [] []
  | cons {v w : Value} {a b : List Value} : Alike v w → AlikeItems a b → AlikeItems (v :: a) (w :: b)

inductive AlikeFields : List (String × Value) → List (String × Value) → Prop
  | nil : AlikeFields [] []
  | cons {key : String} {v w : Value} {a b : List (String × Value)} :
      Alike v w → AlikeFields a b → AlikeFields ((key, v) :: a) ((key, w) :: b)

end

mutual

/-- No object has two members of one name, as in the maps of a JSON library. -/
def NamesUnique : Value → Prop
  | .array items => NamesUniqueItems items
  | .object fields => (fields.map Prod.fst).Nodup ∧ NamesUniqueFields fields
  | .null | .bool _ | .number _ | .string _ => True

def NamesUniqueItems : List Value → Prop
  | [] => True
  | item :: items => NamesUnique item ∧ NamesUniqueItems items

def NamesUniqueFields : List (String × Value) → Prop
  | [] => True
  | (_, value) :: fields => NamesUnique value ∧ NamesUniqueFields fields

end

/-! ## The sorted form -/

/-- The order of members by their names. -/
def nameLe {α : Type} (a b : String × α) : Prop := a.1 ≤ b.1

instance {α : Type} : DecidableRel (nameLe (α := α)) := fun a b => inferInstanceAs (Decidable (a.1 ≤ b.1))

instance {α : Type} : Std.Total (nameLe (α := α)) := ⟨fun a b => le_total a.1 b.1⟩

instance {α : Type} : IsTrans (String × α) nameLe := ⟨fun _ _ _ => le_trans⟩

def sortMembers {α : Type} (members : List (String × α)) : List (String × α) :=
  members.insertionSort nameLe

mutual

def sorted : Value → Value
  | .null => .null
  | .bool b => .bool b
  | .number n => .number n
  | .string s => .string s
  | .array items => .array (sortedItems items)
  | .object fields => .object (sortMembers (sortedFields fields))

def sortedItems : List Value → List Value
  | [] => []
  | item :: items => sorted item :: sortedItems items

def sortedFields : List (String × Value) → List (String × Value)
  | [] => []
  | (key, value) :: fields => (key, sorted value) :: sortedFields fields

end

/-- Texts with commas between them. -/
def joinTexts : List (List Char) → List Char
  | [] => []
  | [text] => text
  | text :: next :: rest => text ++ ',' :: joinTexts (next :: rest)

def memberText (member : String × List Char) : List Char :=
  renderString member.1 ++ ':' :: member.2

mutual

/-- The compact text with the members of objects in the order of their names. -/
def writeSorted : Value → List Char
  | .null => ['n', 'u', 'l', 'l']
  | .bool true => ['t', 'r', 'u', 'e']
  | .bool false => ['f', 'a', 'l', 's', 'e']
  | .number n => n.chars
  | .string s => renderString s
  | .array items => '[' :: (joinTexts (writeItems items) ++ [']'])
  | .object fields =>
    '\x7b' :: (joinTexts ((sortMembers (writeMembers fields)).map memberText) ++ ['\x7d'])

def writeItems : List Value → List (List Char)
  | [] => []
  | item :: items => writeSorted item :: writeItems items

def writeMembers : List (String × Value) → List (String × List Char)
  | [] => []
  | (key, value) :: fields => (key, writeSorted value) :: writeMembers fields

end

/-! ## The text of the sorted form -/

theorem sortedFields_eq_map (fields : Fields) :
    sortedFields fields = fields.map fun member => (member.1, sorted member.2) := by
  induction fields with
  | nil => rw [sortedFields, List.map_nil]
  | cons member fields ih => rw [sortedFields, List.map_cons, ih]

theorem names_sortedFields (fields : Fields) :
    (sortedFields fields).map Prod.fst = fields.map Prod.fst := by
  rw [sortedFields_eq_map, List.map_map]
  rfl

theorem sortMembers_map {α β : Type} (f : α → β) (members : List (String × α)) :
    sortMembers (members.map fun member => (member.1, f member.2)) =
      (sortMembers members).map fun member => (member.1, f member.2) :=
  (List.map_insertionSort nameLe nameLe (fun member : String × α => (member.1, f member.2)) members
    fun _ _ _ _ => Iff.rfl).symm

theorem render_array (items : List Value) :
    render (.array items) = '[' :: (joinTexts (items.map render) ++ [']']) := by
  have hrest : ∀ (first : Value) (rest : List Value),
      render first ++ renderItems rest = joinTexts ((first :: rest).map render) ++ [']'] := by
    intro first rest
    induction rest generalizing first with
    | nil => simp [renderItems, joinTexts]
    | cons next rest ih =>
      rw [renderItems, ih next]
      simp [joinTexts]
  cases items with
  | nil => simp [render, joinTexts]
  | cons first rest => rw [render, hrest]

theorem render_object (fields : Fields) :
    render (.object fields) = '\x7b' ::
      (joinTexts (fields.map fun member => memberText (member.1, render member.2)) ++ ['\x7d']) := by
  have hrest : ∀ (key : String) (value : Value) (rest : Fields),
      renderString key ++ ':' :: (render value ++ renderFields rest) =
        joinTexts (((key, value) :: rest).map fun member => memberText (member.1, render member.2)) ++
          ['\x7d'] := by
    intro key value rest
    induction rest generalizing key value with
    | nil => simp [renderFields, joinTexts, memberText]
    | cons next rest ih =>
      obtain ⟨k, v⟩ := next
      rw [renderFields, ih k v]
      simp [joinTexts, memberText]
  cases fields with
  | nil => simp [render, joinTexts]
  | cons first rest =>
    obtain ⟨key, value⟩ := first
    rw [render, hrest]

mutual

theorem writeSorted_eq (value : Value) : writeSorted value = render (sorted value) := by
  match value with
  | .null => rw [writeSorted, sorted, render]
  | .bool true => rw [writeSorted, sorted, render]
  | .bool false => rw [writeSorted, sorted, render]
  | .number n => rw [writeSorted, sorted, render]
  | .string s => rw [writeSorted, sorted, render]
  | .array items => rw [writeSorted, sorted, render_array, writeItems_eq items]
  | .object fields =>
    rw [writeSorted, sorted, render_object, writeMembers_eq fields, sortMembers_map render, List.map_map]
    rfl

theorem writeItems_eq (items : List Value) : writeItems items = (sortedItems items).map render := by
  match items with
  | [] => rw [writeItems, sortedItems, List.map_nil]
  | item :: items => rw [writeItems, sortedItems, List.map_cons, writeSorted_eq item, writeItems_eq items]

theorem writeMembers_eq (fields : List (String × Value)) :
    writeMembers fields = (sortedFields fields).map fun member => (member.1, render member.2) := by
  match fields with
  | [] => rw [writeMembers, sortedFields, List.map_nil]
  | (key, value) :: fields =>
    rw [writeMembers, sortedFields, List.map_cons, writeSorted_eq value, writeMembers_eq fields]

end

/-! ## Alike values and their sorted forms -/

theorem AlikeFields.names {a b : Fields} (h : AlikeFields a b) :
    a.map Prod.fst = b.map Prod.fst := by
  induction a generalizing b with
  | nil => cases h; rfl
  | cons member a ih =>
    cases h with
    | cons _ htail => rw [List.map_cons, List.map_cons, ih htail]

/-- Members of different names have one order only. -/
theorem sortMembers_perm {a b : Fields} (hnodup : (a.map Prod.fst).Nodup) (h : a.Perm b) :
    sortMembers a = sortMembers b := by
  have hperm : (sortMembers a).Perm (sortMembers b) :=
    (List.perm_insertionSort nameLe a).trans (h.trans (List.perm_insertionSort nameLe b).symm)
  refine hperm.eq_of_pairwise ?_ (List.pairwise_insertionSort nameLe a)
    (List.pairwise_insertionSort nameLe b)
  intro x y hx hy hxy hyx
  have hxa : x ∈ a := (List.perm_insertionSort nameLe a).mem_iff.mp hx
  have hya : y ∈ a := h.mem_iff.mpr ((List.perm_insertionSort nameLe b).mem_iff.mp hy)
  exact List.inj_on_of_nodup_map hnodup hxa hya (le_antisymm hxy hyx)

mutual

theorem sorted_eq_of_alike {v w : Value} (h : Alike v w) (hv : NamesUnique v) : sorted v = sorted w := by
  match v, w, h with
  | _, _, .null => rfl
  | _, _, .bool b => rfl
  | _, _, .number n => rfl
  | _, _, .string s => rfl
  | .array a, .array b, .array hitems =>
    rw [NamesUnique] at hv
    rw [sorted, sorted, sortedItems_eq_of_alike hitems hv]
  | .object a, .object c, @Alike.object _ b _ hfields hperm =>
    rw [NamesUnique] at hv
    have hmapped : (sortedFields b).Perm (sortedFields c) := by
      rw [sortedFields_eq_map, sortedFields_eq_map]
      exact hperm.map _
    have hnodup : ((sortedFields b).map Prod.fst).Nodup := by
      rw [names_sortedFields, ← hfields.names]
      exact hv.1
    rw [sorted, sorted, sortedFields_eq_of_alike hfields hv.2, sortMembers_perm hnodup hmapped]

theorem sortedItems_eq_of_alike {a b : List Value} (h : AlikeItems a b) (ha : NamesUniqueItems a) :
    sortedItems a = sortedItems b := by
  match a, b, h with
  | _, _, .nil => rfl
  | v :: a, w :: b, .cons hv htail =>
    rw [NamesUniqueItems] at ha
    rw [sortedItems, sortedItems, sorted_eq_of_alike hv ha.1, sortedItems_eq_of_alike htail ha.2]

theorem sortedFields_eq_of_alike {a b : List (String × Value)} (h : AlikeFields a b)
    (ha : NamesUniqueFields a) : sortedFields a = sortedFields b := by
  match a, b, h with
  | _, _, .nil => rfl
  | (key, v) :: a, (_, w) :: b, .cons hv htail =>
    rw [NamesUniqueFields] at ha
    rw [sortedFields, sortedFields, sorted_eq_of_alike hv ha.1, sortedFields_eq_of_alike htail ha.2]

end

/-- A permutation of images is the image of a permutation. -/
theorem exists_perm_of_map {α β : Type} (f : α → β) {l : List β} {b : List α} (h : l.Perm (b.map f)) :
    ∃ c : List α, c.Perm b ∧ c.map f = l := by
  induction b generalizing l with
  | nil =>
    rw [List.map_nil, List.perm_nil] at h
    exact ⟨[], .nil, h.symm⟩
  | cons x b ih =>
    rw [List.map_cons] at h
    obtain ⟨front, back, rfl⟩ := List.append_of_mem (h.symm.subset (List.mem_cons_self ..))
    have htail : (front ++ back).Perm (b.map f) := (List.perm_middle.symm.trans h).cons_inv
    obtain ⟨c, hc, hmap⟩ := ih htail
    obtain ⟨c₁, c₂, rfl, h₁, h₂⟩ := List.map_eq_append_iff.mp hmap
    refine ⟨c₁ ++ x :: c₂, List.perm_middle.trans (hc.cons x), ?_⟩
    rw [List.map_append, List.map_cons, h₁, h₂]

mutual

theorem alike_of_sorted_eq {v w : Value} (h : sorted v = sorted w) : Alike v w := by
  match v, w with
  | .null, .null => exact .null
  | .bool a, .bool b =>
    rw [sorted, sorted, Value.bool.injEq] at h
    exact h ▸ .bool a
  | .number a, .number b =>
    rw [sorted, sorted, Value.number.injEq] at h
    exact h ▸ .number a
  | .string a, .string b =>
    rw [sorted, sorted, Value.string.injEq] at h
    exact h ▸ .string a
  | .array a, .array b =>
    rw [sorted, sorted, Value.array.injEq] at h
    exact .array (alikeItems_of_sorted_eq h)
  | .object a, .object b =>
    rw [sorted, sorted, Value.object.injEq] at h
    have hperm : (sortedFields a).Perm (b.map fun member => (member.1, sorted member.2)) := by
      rw [← sortedFields_eq_map]
      exact ((List.perm_insertionSort nameLe _).symm.trans (.of_eq h)).trans
        (List.perm_insertionSort nameLe _)
    obtain ⟨c, hc, hmap⟩ := exists_perm_of_map _ hperm
    rw [← sortedFields_eq_map] at hmap
    exact .object (alikeFields_of_sorted_eq hmap.symm) hc
  | .null, .bool _ | .null, .number _ | .null, .string _ | .null, .array _ | .null, .object _
  | .bool _, .null | .bool _, .number _ | .bool _, .string _ | .bool _, .array _ | .bool _, .object _
  | .number _, .null | .number _, .bool _ | .number _, .string _ | .number _, .array _
  | .number _, .object _
  | .string _, .null | .string _, .bool _ | .string _, .number _ | .string _, .array _
  | .string _, .object _
  | .array _, .null | .array _, .bool _ | .array _, .number _ | .array _, .string _
  | .array _, .object _
  | .object _, .null | .object _, .bool _ | .object _, .number _ | .object _, .string _
  | .object _, .array _ =>
    rw [sorted, sorted] at h
    cases h

theorem alikeItems_of_sorted_eq {a b : List Value} (h : sortedItems a = sortedItems b) :
    AlikeItems a b := by
  match a, b with
  | [], [] => exact .nil
  | v :: a, w :: b =>
    rw [sortedItems, sortedItems, List.cons.injEq] at h
    exact .cons (alike_of_sorted_eq h.1) (alikeItems_of_sorted_eq h.2)
  | [], _ :: _ | _ :: _, [] =>
    rw [sortedItems, sortedItems] at h
    cases h

theorem alikeFields_of_sorted_eq {a b : List (String × Value)} (h : sortedFields a = sortedFields b) :
    AlikeFields a b := by
  match a, b with
  | [], [] => exact .nil
  | (k, v) :: a, (l, w) :: b =>
    rw [sortedFields, sortedFields, List.cons.injEq, Prod.mk.injEq] at h
    obtain ⟨⟨rfl, hv⟩, htail⟩ := h
    exact .cons (alike_of_sorted_eq hv) (alikeFields_of_sorted_eq htail)
  | [], _ :: _ | _ :: _, [] =>
    rw [sortedFields, sortedFields] at h
    cases h

end

/-- Sorted compact text tells apart exactly the values that are not alike. -/
theorem writeSorted_eq_iff {v w : Value} (hv : NamesUnique v) :
    writeSorted v = writeSorted w ↔ Alike v w := by
  rw [writeSorted_eq, writeSorted_eq, render_inj]
  exact ⟨alike_of_sorted_eq, fun h => sorted_eq_of_alike h hv⟩

/-! ## Reading back -/

theorem fieldsDepth_perm {a b : Fields} (h : a.Perm b) : fieldsDepth a = fieldsDepth b := by
  induction h with
  | nil => rfl
  | cons member _ ih => rw [fieldsDepth, fieldsDepth, ih]
  | swap x y l =>
    simp only [fieldsDepth]
    omega
  | trans _ _ ih₁ ih₂ => exact ih₁.trans ih₂

theorem fieldsDepth_sortMembers (fields : Fields) :
    fieldsDepth (sortMembers fields) = fieldsDepth fields :=
  fieldsDepth_perm (List.perm_insertionSort nameLe fields)

theorem sortedFields_sortMembers (fields : Fields) :
    sortedFields (sortMembers fields) = sortMembers (sortedFields fields) := by
  rw [sortedFields_eq_map, sortedFields_eq_map, sortMembers_map sorted]

mutual

theorem depth_sorted (value : Value) : depth (sorted value) = depth value := by
  match value with
  | .null | .bool _ | .number _ | .string _ => rw [sorted]
  | .array items => rw [sorted, depth, depth, itemsDepth_sorted items]
  | .object fields => rw [sorted, depth, depth, fieldsDepth_sortMembers, fieldsDepth_sorted fields]

theorem itemsDepth_sorted (items : List Value) : itemsDepth (sortedItems items) = itemsDepth items := by
  match items with
  | [] => rw [sortedItems]
  | item :: items => rw [sortedItems, itemsDepth, itemsDepth, depth_sorted item, itemsDepth_sorted items]

theorem fieldsDepth_sorted (fields : List (String × Value)) :
    fieldsDepth (sortedFields fields) = fieldsDepth fields := by
  match fields with
  | [] => rw [sortedFields]
  | (key, value) :: fields =>
    rw [sortedFields, fieldsDepth, fieldsDepth, depth_sorted value, fieldsDepth_sorted fields]

end

mutual

theorem sorted_sorted (value : Value) : sorted (sorted value) = sorted value := by
  match value with
  | .null | .bool _ | .number _ | .string _ => rfl
  | .array items => rw [sorted, sorted, sortedItems_sortedItems items]
  | .object fields =>
    rw [sorted, sorted, sortedFields_sortMembers, sortedFields_sortedFields fields]
    exact congrArg Value.object
      (List.pairwise_insertionSort nameLe (sortedFields fields)).insertionSort_eq

theorem sortedItems_sortedItems (items : List Value) :
    sortedItems (sortedItems items) = sortedItems items := by
  match items with
  | [] => rfl
  | item :: items =>
    rw [sortedItems, sortedItems, sorted_sorted item, sortedItems_sortedItems items]

theorem sortedFields_sortedFields (fields : List (String × Value)) :
    sortedFields (sortedFields fields) = sortedFields fields := by
  match fields with
  | [] => rfl
  | (key, value) :: fields =>
    rw [sortedFields, sortedFields, sorted_sorted value, sortedFields_sortedFields fields]

end

theorem alike_sorted (value : Value) : Alike value (sorted value) :=
  alike_of_sorted_eq (sorted_sorted value).symm

theorem lexicalFields_iff {fields : Fields} :
    LexicalFields fields ↔ ∀ field ∈ fields, Lexical field.2 := by
  induction fields with
  | nil => simp [LexicalFields]
  | cons field fields ih =>
    obtain ⟨key, value⟩ := field
    rw [LexicalFields, ih, List.forall_mem_cons]

mutual

theorem lexical_sorted (value : Value) (h : Lexical value) : Lexical (sorted value) := by
  match value with
  | .null | .bool _ | .number _ | .string _ => rwa [sorted]
  | .array items =>
    rw [Lexical] at h
    rw [sorted, Lexical]
    exact lexicalItems_sorted items h
  | .object fields =>
    rw [Lexical] at h
    rw [sorted, Lexical, lexicalFields_iff]
    intro field hfield
    have hmem := (List.perm_insertionSort nameLe _).mem_iff.mp hfield
    exact lexicalFields_iff.mp (lexicalFields_sorted fields h) field hmem

theorem lexicalItems_sorted (items : List Value) (h : LexicalItems items) :
    LexicalItems (sortedItems items) := by
  match items with
  | [] => rwa [sortedItems]
  | item :: items =>
    rw [LexicalItems] at h
    rw [sortedItems, LexicalItems]
    exact ⟨lexical_sorted item h.1, lexicalItems_sorted items h.2⟩

theorem lexicalFields_sorted (fields : List (String × Value)) (h : LexicalFields fields) :
    LexicalFields (sortedFields fields) := by
  match fields with
  | [] => rwa [sortedFields]
  | (key, value) :: fields =>
    rw [LexicalFields] at h
    rw [sortedFields, LexicalFields]
    exact ⟨lexical_sorted value h.1, lexicalFields_sorted fields h.2⟩

end

/-- Sorted compact text is a JSON text of a value that is alike. -/
theorem isJsonText_writeSorted {value : Value} (h : Lexical value) :
    IsJsonText (writeSorted value) (sorted value) := by
  rw [writeSorted_eq]
  exact isJsonText_render (lexical_sorted value h)

mutual

/-- What is in the sorted text is read as it stands: numbers are spelled as they are read, and the mark
of a number is not the least name of an object. -/
def SortedVerbatim : Value → Prop
  | .null | .bool _ | .string _ => True
  | .number n => isVerbatimNumber n.chars = true
  | .array items => SortedVerbatimItems items
  | .object fields =>
    (numberToken ∈ fields.map Prod.fst → ∃ name ∈ fields.map Prod.fst, name < numberToken) ∧
      SortedVerbatimFields fields

def SortedVerbatimItems : List Value → Prop
  | [] => True
  | item :: items => SortedVerbatim item ∧ SortedVerbatimItems items

def SortedVerbatimFields : List (String × Value) → Prop
  | [] => True
  | (_, value) :: fields => SortedVerbatim value ∧ SortedVerbatimFields fields

end

/-- The first of the sorted members has the least name. -/
theorem head?_sortMembers_ne {fields : Fields} {key name : String} (hname : name ∈ fields.map Prod.fst)
    (hlt : name < key) : (sortMembers fields).head?.map Prod.fst ≠ some key := by
  intro hhead
  obtain ⟨first, hfirst, rfl⟩ := Option.map_eq_some_iff.mp hhead
  obtain ⟨rest, hrest⟩ := List.head?_eq_some_iff.mp hfirst
  have hsorted : (sortMembers fields).Pairwise nameLe := List.pairwise_insertionSort nameLe fields
  obtain ⟨member, hmember, rfl⟩ := List.mem_map.mp hname
  have hmem : member ∈ first :: rest := hrest ▸ (List.perm_insertionSort nameLe fields).mem_iff.mpr hmember
  rw [hrest, List.pairwise_cons] at hsorted
  rcases List.mem_cons.mp hmem with rfl | hmem
  · exact absurd hlt (lt_irrefl _)
  · exact absurd hlt (not_lt.mpr (hsorted.1 member hmem))

mutual

theorem verbatim_sorted (value : Value) (hnames : NamesUnique value) (h : SortedVerbatim value) :
    Verbatim (sorted value) := by
  match value with
  | .null | .bool _ | .string _ =>
    rw [sorted, Verbatim]
    trivial
  | .number n =>
    rw [SortedVerbatim] at h
    rwa [sorted, Verbatim]
  | .array items =>
    rw [NamesUnique] at hnames
    rw [SortedVerbatim] at h
    rw [sorted, Verbatim]
    exact verbatimItems_sorted items hnames h
  | .object fields =>
    rw [NamesUnique] at hnames
    rw [SortedVerbatim] at h
    have hperm : ((sortMembers (sortedFields fields)).map Prod.fst).Perm (fields.map Prod.fst) :=
      names_sortedFields fields ▸ (List.perm_insertionSort nameLe _).map Prod.fst
    rw [sorted, Verbatim, verbatimFields_iff]
    refine ⟨⟨hperm.nodup_iff.mpr hnames.1, fun hhead => ?_⟩, fun field hfield => ?_⟩
    · have hmem : numberToken ∈ (sortMembers (sortedFields fields)).map Prod.fst := by
        rw [← List.head?_map] at hhead
        exact List.mem_of_head? hhead
      obtain ⟨name, hname, hlt⟩ := h.1 (hperm.mem_iff.mp hmem)
      exact head?_sortMembers_ne ((names_sortedFields fields).symm ▸ hname) hlt hhead
    · have hmem := (List.perm_insertionSort nameLe _).mem_iff.mp hfield
      exact verbatimFields_iff.mp (verbatimFields_sorted fields hnames.2 h.2) field hmem

theorem verbatimItems_sorted (items : List Value) (hnames : NamesUniqueItems items)
    (h : SortedVerbatimItems items) : VerbatimItems (sortedItems items) := by
  match items with
  | [] =>
    rw [sortedItems, VerbatimItems]
    trivial
  | item :: items =>
    rw [NamesUniqueItems] at hnames
    rw [SortedVerbatimItems] at h
    rw [sortedItems, VerbatimItems]
    exact ⟨verbatim_sorted item hnames.1 h.1, verbatimItems_sorted items hnames.2 h.2⟩

theorem verbatimFields_sorted (fields : List (String × Value)) (hnames : NamesUniqueFields fields)
    (h : SortedVerbatimFields fields) : VerbatimFields (sortedFields fields) := by
  match fields with
  | [] =>
    rw [sortedFields, VerbatimFields]
    trivial
  | (key, value) :: fields =>
    rw [NamesUniqueFields] at hnames
    rw [SortedVerbatimFields] at h
    rw [sortedFields, VerbatimFields]
    exact ⟨verbatim_sorted value hnames.1 h.1, verbatimFields_sorted fields hnames.2 h.2⟩

end

/-- Sorted compact text is read back as a value that is alike. -/
theorem read_writeSorted [JsonText] {value : Value} (hdepth : depth value ≤ depthLimit)
    (hnames : NamesUnique value) (h : SortedVerbatim value) :
    JsonText.read (writeSorted value) = .ok (sorted value) := by
  rw [writeSorted_eq]
  exact JsonText.read_compact ⟨(depth_sorted value).trans_le hdepth, verbatim_sorted value hnames h⟩

/-! ## Members of alike objects -/

theorem AlikeFields.exists_of_get? {a b : Fields} {key : String} {v : Value} (h : AlikeFields a b)
    (hget : Fields.get? a key = some v) : ∃ w, Fields.get? b key = some w ∧ Alike v w := by
  induction a generalizing b with
  | nil => cases hget
  | cons member a ih =>
    cases h with
    | @cons k x y _ b hxy htail =>
      rw [Fields.get?] at hget
      rw [Fields.get?]
      split at hget
      · next hkey =>
        cases hget
        exact ⟨y, if_pos hkey, hxy⟩
      · next hkey =>
        rw [if_neg hkey]
        exact ih htail hget

theorem get?_eq_some_iff_mem {fields : Fields} (h : (fields.map Prod.fst).Nodup) {key : String}
    {value : Value} : Fields.get? fields key = some value ↔ (key, value) ∈ fields := by
  induction fields with
  | nil => simp [Fields.get?]
  | cons member fields ih =>
    obtain ⟨k, v⟩ := member
    rw [List.map_cons, List.nodup_cons] at h
    rw [Fields.get?, List.mem_cons, Prod.mk.injEq]
    by_cases hk : k = key
    · subst hk
      have hother : (k, value) ∉ fields := fun hmem => h.1 (List.mem_map.mpr ⟨_, hmem, rfl⟩)
      simp only [if_true, Option.some.injEq, true_and, hother, or_false]
      exact eq_comm
    · rw [if_neg hk, ih h.2]
      simp [Ne.symm hk]

/-- A member of an object is found, alike, in an object that is alike. -/
theorem Alike.member {a b : Fields} (h : Alike (.object a) (.object b)) (hb : (b.map Prod.fst).Nodup)
    {key : String} {v : Value} (hget : Fields.get? a key = some v) :
    ∃ w, Fields.get? b key = some w ∧ Alike v w := by
  cases h with
  | @object _ c _ hfields hperm =>
    obtain ⟨w, hw, halike⟩ := hfields.exists_of_get? hget
    have hc : (c.map Prod.fst).Nodup := (hperm.map Prod.fst).nodup_iff.mpr hb
    exact ⟨w, (get?_eq_some_iff_mem hb).mpr (hperm.mem_iff.mp ((get?_eq_some_iff_mem hc).mp hw)), halike⟩

theorem Alike.names_perm {a b : Fields} (h : Alike (.object a) (.object b)) :
    (a.map Prod.fst).Perm (b.map Prod.fst) := by
  cases h with
  | object hfields hperm =>
    rw [hfields.names]
    exact hperm.map Prod.fst

theorem alike_string_iff {s t : String} : Alike (.string s) (.string t) ↔ s = t :=
  ⟨fun h => by cases h; rfl, fun h => h ▸ .string s⟩

theorem alike_number_iff {m n : Number} : Alike (.number m) (.number n) ↔ m = n :=
  ⟨fun h => by cases h; rfl, fun h => h ▸ .number m⟩

/-- Arrays of images are alike when the items are equal, if images that are alike have equal items. -/
theorem alikeItems_map_iff {α : Type} {f : α → Value} (hf : ∀ x y, Alike (f x) (f y) ↔ x = y)
    {a b : List α} : AlikeItems (a.map f) (b.map f) ↔ a = b := by
  constructor
  · intro h
    induction a generalizing b with
    | nil =>
      cases b with
      | nil => rfl
      | cons y b => cases h
    | cons x a ih =>
      cases b with
      | nil => cases h
      | cons y b =>
        cases h with
        | cons hxy htail => rw [(hf x y).mp hxy, ih htail]
  · rintro rfl
    induction a with
    | nil => exact .nil
    | cons x a ih => exact .cons ((hf x x).mpr rfl) ih

theorem alike_array_map_iff {α : Type} {f : α → Value} (hf : ∀ x y, Alike (f x) (f y) ↔ x = y)
    {a b : List α} : Alike (.array (a.map f)) (.array (b.map f)) ↔ a = b := by
  rw [← alikeItems_map_iff hf]
  exact ⟨fun h => by cases h; assumption, .array⟩

end Tally.Lib
