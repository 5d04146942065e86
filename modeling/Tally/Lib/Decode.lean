import Tally.Lib.Json
import Tally.Lib.Result

/-!
# Derived decoders

What the derived decoders of records do with the members of an object: a member is looked up by its
name, one that occurs twice is an error, and an optional one may be missing or null.
-/

namespace Tally.Lib

/-- The limit of `serde_json` on the depth of a text. -/
def depthLimit : Nat := 127

/-- The key by which the JSON library marks a number. -/
def numberToken : String := "$serde_json::private::Number"

/-- The number of an unsigned integer. -/
def natNumber (n : Nat) : Value := .number (.ofNat n)

namespace Decode

def text : Value → Except String String
  | .string text => .ok text
  | _ => .error "invalid type: expected a string"

def u64 : Value → Except String UInt64
  | .number n =>
    match n.asU64 with
    | some value => .ok (UInt64.ofNat value)
    | none => .error "invalid value: expected u64"
  | _ => .error "invalid type: expected u64"

def u32 : Value → Except String UInt32
  | .number n =>
    match n.asU64 with
    | some value =>
      if value < 2 ^ 32 then .ok (UInt32.ofNat value) else .error "invalid value: expected u32"
    | none => .error "invalid value: expected u32"
  | _ => .error "invalid type: expected u32"

@[simp] theorem text_string (s : String) : text (.string s) = .ok s := rfl

@[simp] theorem u64_natNumber (n : UInt64) : u64 (natNumber n.toNat) = .ok n := by
  have hle : n.toNat ≤ u64Max := by
    have := n.toNat_lt
    unfold u64Max
    omega
  simp only [u64, natNumber, Number.asU64_ofNat, if_pos hle, UInt64.ofNat_toNat]

@[simp] theorem u32_natNumber (n : UInt32) : u32 (natNumber n.toNat) = .ok n := by
  have hlt := n.toNat_lt
  have hle : n.toNat ≤ u64Max := by
    unfold u64Max
    omega
  simp only [u32, natNumber, Number.asU64_ofNat, if_pos hle, if_pos hlt, UInt32.ofNat_toNat]

/-- The member of that name, unless there are two. -/
def unique (fields : Fields) (key : String) : Except String (Option Value) :=
  match fields.filter fun member => member.1 = key with
  | [] => .ok none
  | [member] => .ok (some member.2)
  | _ => .error ("duplicate field `" ++ key ++ "`")

def required {α : Type} (decode : Value → Except String α) (fields : Fields) (key : String) :
    Except String α := do
  match ← unique fields key with
  | none => .error ("missing field `" ++ key ++ "`")
  | some value => decode value

def optional {α : Type} (decode : Value → Except String α) (fields : Fields) (key : String) :
    Except String (Option α) := do
  match ← unique fields key with
  | none | some .null => return none
  | some value => return some (← decode value)

variable {α : Type} {a b : Fields} {key : String}

theorem required_of_unique {fields : Fields} {value : Value} (decode : Value → Except String α)
    (h : unique fields key = .ok (some value)) : required decode fields key = decode value := by
  rw [required, h]
  rfl

theorem optional_of_unique {fields : Fields} {value : Option Value} (decode : Value → Except String α)
    (h : unique fields key = .ok value) (hnull : value ≠ some .null) :
    optional decode fields key = value.elim (.ok none) fun value => (decode value).map some := by
  rw [optional, h]
  cases value with
  | none => rfl
  | some value =>
    dsimp only [bind, Except.bind]
    split
    · next heq => cases heq
    · next heq => exact absurd heq hnull
    · next heq =>
      cases heq
      rw [Option.elim_some]
      cases decode value <;> rfl

/-- Members with other names do not count. -/
theorem unique_append (h : key ∉ b.map Prod.fst) : unique (a ++ b) key = unique a key := by
  have hfilter : b.filter (fun member => member.1 = key) = [] := by
    rw [List.filter_eq_nil_iff]
    intro member hmember
    simp only [decide_eq_true_eq]
    rintro rfl
    exact h (List.mem_map_of_mem hmember)
  rw [unique, List.filter_append, hfilter, List.append_nil, unique]

theorem required_append (decode : Value → Except String α) (h : key ∉ b.map Prod.fst) :
    required decode (a ++ b) key = required decode a key := by
  rw [required, unique_append h, required]

theorem optional_append (decode : Value → Except String α) (h : key ∉ b.map Prod.fst) :
    optional decode (a ++ b) key = optional decode a key := by
  rw [optional, unique_append h, optional]

end Decode

end Tally.Lib
