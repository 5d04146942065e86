import Tally.Journal.Record
import Mathlib.Tactic.Linarith

/-!
# The size of journal records

The line of a record grows with the escaped width of the captured tail that it carries
(`stdoutSize_withTail`); the native packet, in which nothing is escaped, stays close to it.
-/

namespace Tally.Journal

open Tally.Lib

variable [FloatTexts]

/-- The bytes of the line of a record, with its line feed. -/
def stdoutSize (fields : TallyFields) : Nat := (encode (render (.object (members fields)))).length + 1

omit [FloatTexts] in
def TallyFields.withTail (fields : TallyFields) (tail : Option String) (truncated : Option Bool) :
    TallyFields :=
  { fields with stderrTail := tail, stderrTruncated := truncated }

theorem members_ne_nil (fields : TallyFields) : members fields ≠ [] := by
  unfold members
  simp only [ne_eq, List.append_eq_nil_iff, reduceCtorEq, false_and, not_false_iff]

theorem stdoutSize_eq (fields : TallyFields) : stdoutSize fields = fieldsSize (members fields) + 2 := by
  rw [stdoutSize, ← size, size_object (members_ne_nil fields)]

omit [FloatTexts] in
@[simp] theorem fieldsSize_optionalMember_some {α : Type} (name : FieldName) (value : α)
    (toValue : α → Value) :
    fieldsSize (optionalMember name (some value) toValue) = memberSize name.text (toValue value) :=
  Nat.add_zero _

omit [FloatTexts] in
theorem memberSize_string (key text : String) :
    memberSize key (.string text) = memberSize key (.string "") + width text.toList := by
  simp only [memberSize, size_string]
  simp
  omega

/-- The line of a record with a captured tail is as much longer as the tail is wide. -/
theorem stdoutSize_withTail (fields : TallyFields) (tail : String) (truncated : Option Bool) :
    stdoutSize (fields.withTail (some tail) truncated) =
      stdoutSize (fields.withTail (some "") truncated) + width tail.toList := by
  have htail := memberSize_string FieldName.stderrTail.text tail
  simp only [stdoutSize_eq]
  unfold members TallyFields.withTail
  simp only [fieldsSize_append, fieldsSize_optionalMember_some]
  omega

/-! ## The native packet -/

omit [FloatTexts] in
def nativeSize (values : List (FieldName × String)) : Nat :=
  (values.map fun (name, value) => (nativeField name value).length).sum

omit [FloatTexts] in
theorem length_flatMap_nativeField (values : List (FieldName × String)) :
    (values.flatMap fun (name, value) => nativeField name value).length = nativeSize values := by
  rw [List.length_flatMap]
  rfl

omit [FloatTexts] in
theorem nativeSize_append (a b : List (FieldName × String)) :
    nativeSize (a ++ b) = nativeSize a + nativeSize b := by
  rw [nativeSize, List.map_append, List.sum_append]
  rfl

omit [FloatTexts] in
theorem length_nativeField_le (name : FieldName) (value : String) :
    (nativeField name value).length ≤
      (encode name.text.toList).length + (encode value.toList).length + 10 := by
  unfold nativeField
  simp only
  have hequals : (encode ['=']).length = 1 := rfl
  have hlength : (toLeBytes (encode value.toList).length).length = 8 := by
    rw [toLeBytes, List.length_map, List.length_range]
  split <;> simp only [List.length_append, List.length_singleton] <;> omega

omit [FloatTexts] in
/-- What a field takes in the packet, against what its member takes in the line. -/
theorem length_nativeField_le_memberSize (name : FieldName) {text : String} {value : Value} {slack : Nat}
    (h : (encode text.toList).length ≤ size value + slack) :
    (nativeField name text).length ≤ memberSize name.text value + 6 + slack := by
  have hle := length_nativeField_le name text
  have hname := length_encode_le_width name.text.toList
  rw [memberSize, length_renderString]
  omega

omit [FloatTexts] in
theorem nativeSize_pushOptional_le {α : Type} (name : FieldName) (value : Option α)
    (toText : α → String) (toValue : α → Value) (slack : Nat)
    (h : ∀ a, (encode (toText a).toList).length ≤ size (toValue a) + slack) :
    nativeSize (pushOptional name value toText) ≤
      fieldsSize (optionalMember name value toValue) + 6 + slack := by
  cases value with
  | none => exact Nat.zero_le _
  | some a =>
    have hfield := length_nativeField_le_memberSize name (h a)
    simp only [nativeSize, pushOptional, Option.toList_some, List.map_cons, List.map_nil,
      List.sum_cons, List.sum_nil, fieldsSize_optionalMember_some]
    omega

omit [FloatTexts] in
theorem length_encode_le_size_string (text : String) :
    (encode text.toList).length ≤ size (.string text) + 0 := by
  have hle := length_encode_le_width text.toList
  rw [size_string]
  omega

omit [FloatTexts] in
theorem length_encode_number (n : Number) :
    (encode (String.ofList n.chars).toList).length ≤ size (.number n) + 0 := by
  rw [String.toList_ofList, size, render]
  exact le_rfl

omit [FloatTexts] in
theorem length_encode_bool (b : Bool) :
    (encode (if b then "true" else "false").toList).length ≤ size (.bool b) + 0 := by
  cases b <;> decide

omit [FloatTexts] in
theorem nativeSize_text_le (name : FieldName) (value : Option String) :
    nativeSize (pushOptional name value id) ≤ fieldsSize (optionalMember name value .string) + 6 + 0 :=
  nativeSize_pushOptional_le name value id .string 0 length_encode_le_size_string

omit [FloatTexts] in
theorem nativeSize_nat_le (name : FieldName) (value : Option Nat) :
    nativeSize (pushOptional name value fun n => String.ofList (Number.ofNat n).chars) ≤
      fieldsSize (optionalMember name value fun n => .number (.ofNat n)) + 6 + 0 :=
  nativeSize_pushOptional_le name value _ _ 0 fun n => length_encode_number (.ofNat n)

omit [FloatTexts] in
theorem nativeSize_cons (name : FieldName) (value : String) (values : List (FieldName × String)) :
    nativeSize ((name, value) :: values) = (nativeField name value).length + nativeSize values := rfl

/-- The packet is not much longer than the line. -/
theorem nativeSize_le (fields : TallyFields) :
    nativeSize (nativeFields fields) ≤ fieldsSize (members fields) + 1024 := by
  have hfixed (name : FieldName) (text : String) :=
    length_nativeField_le_memberSize name (length_encode_le_size_string text)
  have hscope := nativeSize_pushOptional_le .projectionScope fields.projectionScope (·.asStr)
    (fun scope => .string scope.asStr) 0 fun scope => length_encode_le_size_string scope.asStr
  have hexit := nativeSize_pushOptional_le .exitCode fields.exitCode
    (fun code => String.ofList (Number.ofInt code).chars) (fun code => .number (.ofInt code)) 0
    fun code => length_encode_number (.ofInt code)
  have htruncated := nativeSize_pushOptional_le .stderrTruncated fields.stderrTruncated
    (fun b => if b then "true" else "false") .bool 0 length_encode_bool
  have hgpu := nativeSize_pushOptional_le .gpuSeconds fields.gpuSeconds FloatTexts.display
    (fun seconds => .number (FloatTexts.json seconds)) 400
    fun seconds => (FloatTexts.display_le seconds).trans (Nat.le_add_left _ _)
  have hlabor := nativeSize_pushOptional_le .laborClass fields.laborClass laborClassStr
    (fun labor => .string (laborClassStr labor)) 0 fun labor =>
      length_encode_le_size_string (laborClassStr labor)
  have hpools := nativeSize_pushOptional_le .pool fields.pools encodedPools
    (fun pools => .string (encodedPools pools)) 0 fun pools =>
      length_encode_le_size_string (encodedPools pools)
  have h1 := hfixed .syslogIdentifier fields.syslogIdentifier
  have h2 := hfixed .event fields.event.asStr
  have h3 := hfixed .taskUuid fields.taskUuid
  have h4 := hfixed .priority (priorityStr fields.priority)
  have h5 := hfixed .source fields.source.asStr
  have h6 := hfixed .message fields.message
  have hnil : nativeSize [] = 0 := rfl
  unfold nativeFields members
  simp only [nativeSize_append, nativeSize_cons, fieldsSize_append, fieldsSize_cons, fieldsSize_nil, hnil]
  linarith [nativeSize_text_le .taskRef fields.taskRef, nativeSize_text_le .journalScope fields.journalScope,
    nativeSize_text_le .agent fields.agent, nativeSize_text_le .sessionRef fields.sessionRef,
    nativeSize_text_le .unit fields.unit, nativeSize_text_le .stderrTail fields.stderrTail,
    nativeSize_nat_le .contextTokens fields.contextTokens,
    nativeSize_nat_le .contextWindow fields.contextWindow,
    nativeSize_text_le .artifactHash fields.artifactHash, nativeSize_text_le .evidence fields.evidence,
    nativeSize_nat_le .attempt fields.attempt, nativeSize_nat_le .leaseEpoch fields.leaseEpoch,
    nativeSize_text_le .jobId fields.jobId, nativeSize_text_le .parent fields.parent,
    nativeSize_text_le .executor fields.executor]

end Tally.Journal
