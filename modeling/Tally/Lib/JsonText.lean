import Tally.Lib.JsonNumber

/-!
# Reading JSON text

The reader of the JSON library is a parameter. What is needed of it is that it reads what the library
has written, and white space after that. It does not give back every value: a text may not be nested too
deeply, a negative zero is read as zero, members of one name become one member, and an object whose first
name is the mark of a number is taken for that number.
-/

namespace Tally.Lib

/-- A number of the grammar that is read as it is spelled. -/
def isVerbatimNumber (text : List Char) : Bool := isJsonNumber text && text != ['-', '0']

mutual

/-- What is read back as it was written. -/
def Verbatim : Value → Prop
  | .null | .bool _ | .string _ => True
  | .number n => isVerbatimNumber n.chars = true
  | .array items => VerbatimItems items
  | .object fields =>
    ((fields.map Prod.fst).Nodup ∧ fields.head?.map Prod.fst ≠ some numberToken) ∧ VerbatimFields fields

def VerbatimItems : List Value → Prop
  | [] => True
  | item :: items => Verbatim item ∧ VerbatimItems items

def VerbatimFields : List (String × Value) → Prop
  | [] => True
  | (_, value) :: fields => Verbatim value ∧ VerbatimFields fields

end

structure Readable (value : Value) : Prop where
  depth : depth value ≤ depthLimit
  verbatim : Verbatim value

/-- `serde_json::from_str`. Members of one name all stay, since derived decoders refuse them. -/
class JsonText where
  read : List Char → Except String Value
  read_nil : ∀ value, read [] ≠ .ok value
  read_render : ∀ {value : Value} {space : List Char}, Readable value →
    space.all isJsonSpace = true → read (render value ++ space) = .ok value

theorem JsonText.read_compact [JsonText] {value : Value} (h : Readable value) :
    JsonText.read (render value) = .ok value := by
  have hread := JsonText.read_render h (show ([] : List Char).all isJsonSpace = true from rfl)
  rwa [List.append_nil] at hread

/-! ## A reader of compact text -/

/-- An object that begins with the mark stands for a number, or for nothing. -/
def markedNumber : Fields → Except String Value
  | [(_, .string text)] => (orError (parseNumber text.toList) "invalid number").map .number
  | _ => .error "invalid number"

mutual

/-- What the library takes a value in a text for. -/
def interpret : Value → Except String Value
  | .null => .ok .null
  | .bool b => .ok (.bool b)
  | .number n => .ok (.number (if n.chars = ['-', '0'] then .ofNat 0 else n))
  | .string text => .ok (.string text)
  | .array items => do return .array (← interpretItems items)
  | .object fields =>
    if fields.head?.map Prod.fst = some numberToken then markedNumber fields
    else do return .object (← interpretFields fields)

def interpretItems : List Value → Except String (List Value)
  | [] => .ok []
  | item :: items => do return (← interpret item) :: (← interpretItems items)

def interpretFields : List (String × Value) → Except String (List (String × Value))
  | [] => .ok []
  | (key, value) :: fields => do return (key, ← interpret value) :: (← interpretFields fields)

end

mutual

theorem interpret_verbatim (value : Value) (h : Verbatim value) : interpret value = .ok value := by
  match value with
  | .null | .bool _ | .string _ => rw [interpret]
  | .number n =>
    rw [Verbatim, isVerbatimNumber, Bool.and_eq_true, bne_iff_ne] at h
    rw [interpret, if_neg h.2]
  | .array items =>
    rw [Verbatim] at h
    rw [interpret, interpretItems_verbatim items h]
    rfl
  | .object fields =>
    rw [Verbatim] at h
    rw [interpret, if_neg h.1.2, interpretFields_verbatim fields h.2]
    rfl

theorem interpretItems_verbatim (items : List Value) (h : VerbatimItems items) :
    interpretItems items = .ok items := by
  match items with
  | [] => rw [interpretItems]
  | item :: items =>
    rw [VerbatimItems] at h
    rw [interpretItems, interpret_verbatim item h.1, interpretItems_verbatim items h.2]
    rfl

theorem interpretFields_verbatim (fields : List (String × Value)) (h : VerbatimFields fields) :
    interpretFields fields = .ok fields := by
  match fields with
  | [] => rw [interpretFields]
  | (key, value) :: fields =>
    rw [VerbatimFields] at h
    rw [interpretFields, interpret_verbatim value h.1, interpretFields_verbatim fields h.2]
    rfl

end

/-- A compact text with white space after it. -/
def interpretText (text : List Char) : Except String Value :=
  match readValue text.length text with
  | none => .error "invalid JSON"
  | some (value, rest) =>
    if rest.all isJsonSpace ∧ depth value ≤ depthLimit then interpret value else .error "invalid JSON"

theorem interpretText_render (value : Value) {space : List Char} (hspace : space.all isJsonSpace = true) :
    interpretText (render value ++ space) =
      if depth value ≤ depthLimit then interpret value else .error "invalid JSON" := by
  have hends : Ends space := by
    intro c hc
    have hmem := List.all_eq_true.mp hspace c (List.mem_of_head? hc)
    simp only [isJsonSpace, Bool.or_eq_true, beq_iff_eq] at hmem
    rcases hmem with ((rfl | rfl) | rfl) | rfl <;> rfl
  have hread := readValue_render value (render value ++ space).length space (by simp) fun _ _ => hends
  rw [interpretText, hread]
  simp [hspace]

@[reducible] def compactReader : JsonText where
  read := interpretText
  read_nil value h := by cases h
  read_render {value space} h hspace := by
    rw [interpretText_render value hspace, if_pos h.depth, interpret_verbatim value h.verbatim]

/-! ## Numbers -/

theorem parseNumber_verbatim {n : Number} (h : isVerbatimNumber n.chars = true) :
    parseNumber n.chars = some n := by
  rw [isVerbatimNumber, Bool.and_eq_true, bne_iff_ne] at h
  exact parseNumber_chars h.1 h.2

theorem isVerbatimNumber_ofNat (n : Nat) : isVerbatimNumber (Number.ofNat n).chars = true := by
  rw [isVerbatimNumber, isJsonNumber_ofNat, Bool.true_and, bne_iff_ne]
  intro h
  have hhead := head_toDigits_ne_sign n
  rw [show Nat.toDigits 10 n = ['-', '0'] from h] at hhead
  exact hhead rfl

theorem isVerbatimNumber_ofInt (i : Int) : isVerbatimNumber (Number.ofInt i).chars = true := by
  rw [isVerbatimNumber, isJsonNumber_ofInt, Bool.true_and, bne_iff_ne]
  cases i with
  | ofNat n =>
    have h := isVerbatimNumber_ofNat n
    rw [isVerbatimNumber, Bool.and_eq_true, bne_iff_ne] at h
    exact h.2
  | negSucc n =>
    intro h
    have hhead := head_toDigits (Nat.succ_ne_zero n)
    rw [show Nat.toDigits 10 (n + 1) = ['0'] from (List.cons.inj h).2] at hhead
    exact hhead rfl

theorem verbatim_natNumber (n : Nat) : Verbatim (natNumber n) := by
  rw [natNumber, Verbatim]
  exact isVerbatimNumber_ofNat n

/-! ## Objects -/

theorem verbatimFields_iff {fields : Fields} :
    VerbatimFields fields ↔ ∀ field ∈ fields, Verbatim field.2 := by
  induction fields with
  | nil => simp [VerbatimFields]
  | cons field fields ih =>
    obtain ⟨key, value⟩ := field
    rw [VerbatimFields, ih, List.forall_mem_cons]

theorem fieldsDepth_le_iff {fields : Fields} {n : Nat} :
    fieldsDepth fields ≤ n ↔ ∀ field ∈ fields, depth field.2 ≤ n := by
  induction fields with
  | nil => simp [fieldsDepth]
  | cons field fields ih =>
    obtain ⟨key, value⟩ := field
    rw [fieldsDepth, Nat.max_le, ih, List.forall_mem_cons]

/-- An object with distinct names is readable if its values are, within it. -/
theorem readable_object {fields : Fields} (hnames : (fields.map Prod.fst).Nodup)
    (hmark : fields.head?.map Prod.fst ≠ some numberToken)
    (hvalues : ∀ field ∈ fields, depth field.2 < depthLimit ∧ Verbatim field.2) :
    Readable (.object fields) := by
  constructor
  · rw [depth]
    have hdepth : fieldsDepth fields ≤ depthLimit - 1 :=
      fieldsDepth_le_iff.mpr fun field hfield => Nat.le_sub_one_of_lt (hvalues field hfield).1
    have hpos : 0 < depthLimit := by decide
    omega
  · rw [Verbatim, verbatimFields_iff]
    exact ⟨⟨hnames, hmark⟩, fun field hfield => (hvalues field hfield).2⟩

def isScalar : Value → Bool
  | .string _ | .bool _ => true
  | .number n => isVerbatimNumber n.chars
  | .null | .array _ | .object _ => false

@[simp] theorem isScalar_string (s : String) : isScalar (.string s) = true := rfl

@[simp] theorem isScalar_bool (b : Bool) : isScalar (.bool b) = true := rfl

@[simp] theorem isScalar_natNumber (n : Nat) : isScalar (natNumber n) = true := isVerbatimNumber_ofNat n

theorem readable_of_isScalar {value : Value} (h : isScalar value = true) :
    depth value = 0 ∧ Verbatim value := by
  cases value with
  | string | bool => exact ⟨by rw [depth], by rw [Verbatim]; trivial⟩
  | number n => exact ⟨by rw [depth], by rw [Verbatim]; exact h⟩
  | null | array | object => cases h

/-- Members with distinct names that are text, flags and numbers; the first name is not the mark of
a number. -/
structure FlatObject (fields : Fields) : Prop where
  distinct : (fields.map Prod.fst).Nodup
  scalar : ∀ field ∈ fields, isScalar field.2 = true
  unmarked : fields.head?.map Prod.fst ≠ some numberToken

theorem FlatObject.readable {fields : Fields} (h : FlatObject fields) : Readable (.object fields) := by
  refine readable_object h.distinct h.unmarked fun field hfield => ?_
  obtain ⟨hdepth, hverbatim⟩ := readable_of_isScalar (h.scalar field hfield)
  exact ⟨hdepth ▸ by decide, hverbatim⟩

end Tally.Lib
