import Tally.Journal.Check
import Tally.Journal.Parse

/-!
# Records are read back

Both forms of a record carry the same members, in another order and, in the native packet, as text.
The reader makes numbers and the flag of that text again (`hydrate_spelled`), so that one statement
about the decoder (`decodeFields_eq_ok_iff`) covers both. What is not read back is a single pool whose
name begins with a bracket, and the sign of a zero in the native packet.
-/

namespace Tally.Journal

open Tally.Lib
open Tally.Witness (F64 EnqueueSource asObject asStr taskRefTask)

/-- The fields hold values of their types. -/
structure TallyFields.Typed (fields : TallyFields) : Prop where
  taskRef : ∀ taskRef ∈ fields.taskRef, ∃ task, taskRefTask taskRef = .ok task
  exitCode : ∀ code ∈ fields.exitCode, -2 ^ 31 ≤ code ∧ code < 2 ^ 31
  contextTokens : ∀ n ∈ fields.contextTokens, n < 2 ^ 64
  contextWindow : ∀ n ∈ fields.contextWindow, n < 2 ^ 64
  attempt : ∀ n ∈ fields.attempt, n < 2 ^ 32
  leaseEpoch : ∀ n ∈ fields.leaseEpoch, n < 2 ^ 64

/-! ## The members, by name -/

section Members

variable (seconds : F64 → Number) (fields : TallyFields)

/-- What a record has under a name. -/
def memberOf : FieldName → Option Value
  | .syslogIdentifier => some (.string fields.syslogIdentifier)
  | .event => some (.string fields.event.asStr)
  | .taskUuid => some (.string fields.taskUuid)
  | .taskRef => fields.taskRef.map .string
  | .journalScope => fields.journalScope.map .string
  | .projectionScope => fields.projectionScope.map fun scope => .string scope.asStr
  | .priority => some (.string (priorityStr fields.priority))
  | .source => some (.string fields.source.asStr)
  | .message => some (.string fields.message)
  | .agent => fields.agent.map .string
  | .sessionRef => fields.sessionRef.map .string
  | .unit => fields.unit.map .string
  | .exitCode => fields.exitCode.map fun code => .number (.ofInt code)
  | .stderrTail => fields.stderrTail.map .string
  | .stderrTruncated => fields.stderrTruncated.map .bool
  | .gpuSeconds => fields.gpuSeconds.map fun x => .number (seconds x)
  | .contextTokens => fields.contextTokens.map natNumber
  | .contextWindow => fields.contextWindow.map natNumber
  | .artifactHash => fields.artifactHash.map .string
  | .evidence => fields.evidence.map .string
  | .attempt => fields.attempt.map natNumber
  | .leaseEpoch => fields.leaseEpoch.map natNumber
  | .laborClass => fields.laborClass.map fun labor => .string (laborClassStr labor)
  | .jobId => fields.jobId.map .string
  | .parent => fields.parent.map .string
  | .pool => fields.pools.map fun pools => .string (encodedPools pools)
  | .executor => fields.executor.map .string

/-- The text of a member in the native packet. -/
def textOf : Value → String
  | .string text => text
  | .number n => String.ofList n.chars
  | .bool b => if b then "true" else "false"
  | .null | .array _ | .object _ => ""

/-- The order of the line of JSON. -/
def stdoutOrder : List FieldName :=
  [.syslogIdentifier, .event, .taskUuid, .taskRef, .journalScope, .projectionScope, .priority, .source,
    .message, .agent, .sessionRef, .unit, .exitCode, .stderrTail, .stderrTruncated, .gpuSeconds,
    .contextTokens, .contextWindow, .artifactHash, .evidence, .attempt, .leaseEpoch, .laborClass, .jobId,
    .parent, .pool, .executor]

/-- The order of the native packet. -/
def nativeOrder : List FieldName :=
  [.syslogIdentifier, .event, .taskUuid, .priority, .source, .message, .taskRef, .journalScope,
    .projectionScope, .agent, .sessionRef, .unit, .exitCode, .stderrTail, .stderrTruncated, .gpuSeconds,
    .contextTokens, .contextWindow, .artifactHash, .evidence, .attempt, .leaseEpoch, .laborClass, .jobId,
    .parent, .pool, .executor]

theorem mem_stdoutOrder (name : FieldName) : name ∈ stdoutOrder := by
  cases name <;> decide

theorem mem_nativeOrder (name : FieldName) : name ∈ nativeOrder := by
  cases name <;> decide

theorem nodup_nativeOrder : nativeOrder.Nodup := by decide

theorem nodup_text : (stdoutOrder.map FieldName.text).Nodup := by decide

theorem FieldName.text_inj {a b : FieldName} : a.text = b.text ↔ a = b :=
  ⟨fun h => List.inj_on_of_nodup_map nodup_text (mem_stdoutOrder a) (mem_stdoutOrder b) h,
    congrArg _⟩

/-- The members that a record has among these. -/
def membersOf (values : FieldName → Option Value) (names : List FieldName) : Fields :=
  names.filterMap fun name => (values name).map fun value => (name.text, value)

theorem get?_membersOf (values : FieldName → Option Value) (names : List FieldName) (name : FieldName) :
    (membersOf values names).get? name.text = if name ∈ names then values name else none := by
  induction names with
  | nil => rfl
  | cons first names ih =>
    unfold membersOf at ih ⊢
    rw [List.filterMap_cons]
    by_cases hsame : first = name
    · subst hsame
      rw [if_pos List.mem_cons_self]
      cases hvalue : values first with
      | some value => simp [Fields.get?]
      | none => simpa [hvalue] using ih
    · have htext : first.text ≠ name.text := fun htext => hsame (FieldName.text_inj.mp htext)
      have hmem : name ∈ first :: names ↔ name ∈ names := by
        simp [Ne.symm hsame]
      simp only [hmem]
      cases values first with
      | none => exact ih
      | some value =>
        rw [Option.map_some, Fields.get?, if_neg htext]
        exact ih

/-- The members under the names of a record are of the shape that is read whatever their order. -/
theorem flatObject_membersOf {values : FieldName → Option Value} {names : List FieldName}
    (hnames : names.Nodup) (hscalar : ∀ name, ∀ value ∈ values name, isScalar value = true) :
    FlatObject (membersOf values names) := by
  have hkeys : (membersOf values names).map Prod.fst =
      (names.filter fun name => (values name).isSome).map FieldName.text := by
    unfold membersOf
    induction names with
    | nil => rfl
    | cons first names ih =>
      rw [List.filterMap_cons, List.filter_cons]
      have hrest := ih hnames.of_cons
      cases values first with
      | none => exact hrest
      | some value => exact congrArg (List.cons first.text) hrest
  constructor
  · rw [hkeys]
    refine (hnames.filter _).map_on ?_
    intro a _ b _ hsame
    exact FieldName.text_inj.mp hsame
  · intro field hfield
    obtain ⟨name, -, hmember⟩ := List.mem_filterMap.mp hfield
    obtain ⟨value, hvalue, rfl⟩ := Option.map_eq_some_iff.mp hmember
    exact hscalar name value hvalue
  · rw [← List.head?_map, hkeys]
    intro hhead
    obtain ⟨name, -, htext⟩ := List.mem_map.mp (List.mem_of_head? hhead)
    revert htext
    cases name <;> decide

end Members

/-! ## The two forms -/

section Forms

variable [FloatTexts] (fields : TallyFields)

omit [FloatTexts] in
theorem filterMap_cons_eq {α β : Type} (f : α → Option β) (a : α) (rest : List α) :
    (a :: rest).filterMap f = (f a).toList ++ rest.filterMap f := by
  rw [List.filterMap_cons]
  cases f a <;> rfl

omit [FloatTexts] in
theorem optionalMember_eq {α : Type} (name : FieldName) (value : Option α) (toValue : α → Value) :
    optionalMember name value toValue =
      ((value.map toValue).map fun value => (name.text, value)).toList := by
  cases value <;> rfl

theorem members_eq : members fields = membersOf (memberOf FloatTexts.json fields) stdoutOrder := by
  unfold members membersOf stdoutOrder
  simp only [optionalMember_eq, filterMap_cons_eq, memberOf, List.filterMap_nil, List.append_assoc,
    Option.map_some, Option.toList_some, List.append_nil, List.cons_append,
    List.nil_append]
  rfl

/-- The lexeme of a double in a native packet. -/
def displayed (x : F64) : Number :=
  if h : isJsonNumber (FloatTexts.display x).toList = true then
    ⟨(FloatTexts.display x).toList, isNumeric_of_isJsonNumber h⟩
  else .ofNat 0

/-- The number that it is read as. -/
def hydrated (x : F64) : Number := (parseNumber (FloatTexts.display x).toList).getD (.ofNat 0)

omit [FloatTexts] in
theorem pushOptional_eq {α : Type} (name : FieldName) (value : Option α) (toText : α → String) :
    pushOptional name value toText = ((value.map toText).map fun text => (name, text)).toList := by
  cases value <;> rfl

theorem nativeFields_eq
    (hseconds : ∀ x ∈ fields.gpuSeconds, isJsonNumber (FloatTexts.display x).toList = true) :
    nativeFields fields = nativeOrder.filterMap fun name =>
      ((memberOf displayed fields name).map textOf).map fun text => (name, text) := by
  have hdisplay : fields.gpuSeconds.map FloatTexts.display =
      fields.gpuSeconds.map fun x => String.ofList (displayed x).chars := by
    cases hvalue : fields.gpuSeconds with
    | none => rfl
    | some x =>
      have hnumber := hseconds x hvalue
      rw [Option.map_some, Option.map_some, displayed, dif_pos hnumber, String.ofList_toList]
  unfold nativeFields nativeOrder
  simp only [pushOptional_eq, hdisplay, filterMap_cons_eq, memberOf, List.filterMap_nil,
    List.append_assoc, Option.map_some, Option.toList_some, List.append_nil, List.cons_append,
    List.nil_append, Option.map_map]
  rfl

/-- The object of the texts of a native packet. -/
def nativeObject : Fields := (nativeFields fields).map fun (name, value) => (name.text, .string value)

theorem nativeObject_eq
    (hseconds : ∀ x ∈ fields.gpuSeconds, isJsonNumber (FloatTexts.display x).toList = true) :
    nativeObject fields =
      membersOf (fun name => (memberOf displayed fields name).map fun value => .string (textOf value))
        nativeOrder := by
  unfold nativeObject membersOf
  rw [nativeFields_eq fields hseconds, List.map_filterMap]
  simp only [Option.map_map]
  rfl

end Forms

/-! ## Numbers and flags that have become text -/

/-- A member, or its text where it is a number or a flag. -/
inductive Spelled : Option Value → Option Value → Prop
  | same (value : Option Value) : Spelled value value
  | number {text n : Number} (h : parseNumber text.chars = some n) :
    Spelled (some (.string (String.ofList text.chars))) (some (.number n))
  | flag (b : Bool) : Spelled (some (.string (if b then "true" else "false"))) (some (.bool b))

theorem Spelled.textOf {value : Value} (h : isScalar value = true) :
    Spelled (some (.string (textOf value))) (some value) := by
  cases value with
  | string text => exact .same _
  | number n => exact .number (parseNumber_verbatim h)
  | bool b => exact .flag b
  | null | array _ | object _ => cases h

/-- Text is not spelled in another way. -/
theorem Spelled.eq_of_text {value meant : Option Value} (h : Spelled value meant)
    (htext : ∀ v ∈ meant, ∃ text, v = .string text) : value = meant := by
  cases h with
  | same => rfl
  | number _ =>
    obtain ⟨_, hstring⟩ := htext _ rfl
    cases hstring
  | flag _ =>
    obtain ⟨_, hstring⟩ := htext _ rfl
    cases hstring

variable {source : Fields} {name : FieldName} {meant : Option Value}

theorem get?_insert_text_ne {other : FieldName} (h : other ≠ name) (source : Fields) (value : Value) :
    (source.insert name.text value).get? other.text = source.get? other.text :=
  Fields.get?_insert_of_ne (fun htext => h (FieldName.text_inj.mp htext)) source value

/-- A number is a number afterwards, and nothing else changes. -/
theorem hydrateNumber_spelled (h : Spelled (source.get? name.text) meant)
    (hnumber : ∀ v ∈ meant, ∃ n, v = .number n) :
    ∃ next, hydrateNumber source name = .ok next ∧ next.get? name.text = meant ∧
      ∀ other, other ≠ name → next.get? other.text = source.get? other.text := by
  unfold hydrateNumber
  generalize hvalue : source.get? name.text = value at h
  cases h with
  | same =>
    refine ⟨source, ?_, hvalue, fun _ _ => rfl⟩
    cases meant with
    | none => rfl
    | some v =>
      obtain ⟨n, rfl⟩ := hnumber v rfl
      rfl
  | @number text n hn =>
    refine ⟨source.insert name.text (.number n), ?_, Fields.get?_insert_self _ _ _,
      fun other hother => get?_insert_text_ne hother source _⟩
    rw [Option.bind_some, asStr]
    simp only [String.toList_ofList, hn]
    rfl
  | flag _ =>
    obtain ⟨n, hn⟩ := hnumber _ rfl
    cases hn

theorem hydrateFlag_spelled
    (h : Spelled (source.get? FieldName.stderrTruncated.text) meant)
    (hflag : ∀ v ∈ meant, ∃ b, v = .bool b) :
    ∃ next, hydrateFlag source = .ok next ∧ next.get? FieldName.stderrTruncated.text = meant ∧
      ∀ other : FieldName, other ≠ .stderrTruncated → next.get? other.text = source.get? other.text := by
  unfold hydrateFlag
  generalize hvalue : source.get? FieldName.stderrTruncated.text = value at h
  cases h with
  | same =>
    refine ⟨source, ?_, hvalue, fun _ _ => rfl⟩
    cases meant with
    | none => rfl
    | some v =>
      obtain ⟨b, rfl⟩ := hflag v rfl
      rfl
  | number _ =>
    obtain ⟨b, hb⟩ := hflag _ rfl
    cases hb
  | flag b =>
    refine ⟨source.insert FieldName.stderrTruncated.text (.bool b), ?_, Fields.get?_insert_self _ _ _,
      fun other hother => get?_insert_text_ne hother source _⟩
    cases b <;> rfl

theorem foldlM_hydrateNumber {values : FieldName → Option Value} {names : List FieldName}
    (hnumber : ∀ name ∈ names, ∀ v ∈ values name, ∃ n, v = .number n)
    (h : ∀ name, Spelled (source.get? name.text) (values name)) :
    ∃ next, names.foldlM hydrateNumber source = .ok next ∧
      (∀ name ∈ names, next.get? name.text = values name) ∧
      ∀ name, name ∉ names → next.get? name.text = source.get? name.text := by
  induction names generalizing source with
  | nil => exact ⟨source, rfl, fun _ hname => (nomatch hname), fun _ _ => rfl⟩
  | cons first names ih =>
    obtain ⟨middle, hstep, hfirst, hothers⟩ :=
      hydrateNumber_spelled (h first) (hnumber first List.mem_cons_self)
    have hmiddle : ∀ name, Spelled (middle.get? name.text) (values name) := by
      intro name
      by_cases hname : name = first
      · subst hname
        rw [hfirst]
        exact .same _
      · rw [hothers name hname]
        exact h name
    obtain ⟨next, hrest, hexact, hunchanged⟩ :=
      ih (fun name hname => hnumber name (List.mem_cons_of_mem _ hname)) hmiddle
    refine ⟨next, foldlM_cons_ok_iff.mpr ⟨middle, hstep, hrest⟩, ?_, ?_⟩
    · intro name hname
      by_cases hrest : name ∈ names
      · exact hexact name hrest
      · have hsame : name = first := (List.mem_cons.mp hname).resolve_right hrest
        rw [hunchanged name hrest, hsame, hfirst]
    · intro name hname
      rw [List.mem_cons, not_or] at hname
      rw [hunchanged name hname.2, hothers name hname.1]

/-- However the members of a record are spelled, the decoder is given the members. -/
theorem hydrate_spelled {seconds : F64 → Number} {fields : TallyFields}
    (h : ∀ name : FieldName, Spelled (source.get? name.text) (memberOf seconds fields name)) :
    ∃ normalized, (do
        let normalized ← numericFields.foldlM hydrateNumber source
        hydrateFlag normalized : Except JournalError Fields) = .ok normalized ∧
      ∀ name : FieldName, normalized.get? name.text = memberOf seconds fields name := by
  have hnumber : ∀ name ∈ numericFields, ∀ v ∈ memberOf seconds fields name, ∃ n, v = .number n := by
    intro name hname v hv
    simp only [numericFields, List.mem_cons, List.not_mem_nil, or_false] at hname
    rcases hname with rfl | rfl | rfl | rfl | rfl | rfl <;>
    · obtain ⟨x, -, rfl⟩ := Option.map_eq_some_iff.mp hv
      exact ⟨_, rfl⟩
  have hflag : ∀ v ∈ memberOf seconds fields .stderrTruncated, ∃ b, v = .bool b := by
    intro v hv
    obtain ⟨b, -, rfl⟩ := Option.map_eq_some_iff.mp hv
    exact ⟨b, rfl⟩
  have htext : ∀ name, name ∉ numericFields → name ≠ .stderrTruncated →
      ∀ v ∈ memberOf seconds fields name, ∃ text, v = .string text := by
    intro name hnumeric hne v hv
    cases name with
    | stderrTruncated => exact absurd rfl hne
    | exitCode | gpuSeconds | contextTokens | contextWindow | attempt | leaseEpoch =>
      exact absurd (by decide) hnumeric
    | syslogIdentifier | event | taskUuid | priority | source | message =>
      cases hv
      exact ⟨_, rfl⟩
    | _ =>
      obtain ⟨x, -, rfl⟩ := Option.map_eq_some_iff.mp hv
      exact ⟨_, rfl⟩
  obtain ⟨middle, hnumbers, hexact, hunchanged⟩ := foldlM_hydrateNumber hnumber h
  have hmiddle : Spelled (middle.get? FieldName.stderrTruncated.text)
      (memberOf seconds fields .stderrTruncated) := by
    rw [hunchanged _ (by decide)]
    exact h .stderrTruncated
  obtain ⟨normalized, hflagged, htruncated, hothers⟩ := hydrateFlag_spelled hmiddle hflag
  refine ⟨normalized, bind_ok_iff.mpr ⟨middle, hnumbers, hflagged⟩, fun name => ?_⟩
  by_cases hname : name = .stderrTruncated
  · rw [hname, htruncated]
  · rw [hothers name hname]
    by_cases hnumeric : name ∈ numericFields
    · exact hexact name hnumeric
    · rw [hunchanged name hnumeric]
      exact (h name).eq_of_text (htext name hnumeric hname)

/-! ## The decoder -/

theorem readRequired_eq_ok {α : Type} {decode : Value → Except String α} {value : Value} {a : α}
    (hget : source.get? name.text = some value) (hdecode : decode value = .ok a) :
    readRequired decode source name = .ok a := by
  rw [readRequired, hget]
  exact hdecode

theorem readOptional_eq {α : Type} (decode : Value → Except String α) (toValue : α → Value)
    {value : Option α} (hget : source.get? name.text = value.map toValue)
    (hnull : ∀ a ∈ value, toValue a ≠ .null) :
    readOptional decode source name =
      value.elim (.ok none) fun a => (decode (toValue a)).map some := by
  rw [readOptional, hget]
  cases value with
  | none => rfl
  | some a =>
    rw [Option.map_some]
    split
    · next heq => cases heq
    · next heq => exact absurd (Option.some.inj heq) (hnull a rfl)
    · next heq =>
      cases heq
      rfl

theorem readOptional_eq_ok {α : Type} {decode : Value → Except String α} {toValue : α → Value}
    {value : Option α} (hget : source.get? name.text = value.map toValue)
    (hnull : ∀ a ∈ value, toValue a ≠ .null) (hdecode : ∀ a ∈ value, decode (toValue a) = .ok a) :
    readOptional decode source name = .ok value := by
  rw [readOptional_eq decode toValue hget hnull]
  cases value with
  | none => rfl
  | some a =>
    rw [Option.elim_some, hdecode a rfl]
    rfl

theorem readOptional_text {value : Option String} (hget : source.get? name.text = value.map .string) :
    readOptional Decode.text source name = .ok value :=
  readOptional_eq_ok hget (fun _ _ h => (nomatch h)) fun _ _ => rfl

theorem decodeU64_natNumber {n : Nat} (h : n < 2 ^ 64) : decodeU64 (natNumber n) = .ok n := by
  have hn : n = (UInt64.ofNat n).toNat := by
    rw [UInt64.toNat_ofNat_of_lt' h]
  rw [decodeU64, hn, Decode.u64_natNumber]
  rfl

theorem decodeU32_natNumber {n : Nat} (h : n < 2 ^ 32) : decodeU32 (natNumber n) = .ok n := by
  have hn : n = (UInt32.ofNat n).toNat := by
    rw [UInt32.toNat_ofNat_of_lt' h]
  rw [decodeU32, hn, Decode.u32_natNumber]
  rfl

theorem variant_event (event : TallyEvent) :
    Decode.variant tallyEvents TallyEvent.asStr (.string event.asStr) = .ok event :=
  Decode.variant_name (by decide) (by cases event <;> decide)

theorem variant_scope (scope : JournalProjectionScope) :
    Decode.variant projectionScopes JournalProjectionScope.asStr (.string scope.asStr) = .ok scope :=
  Decode.variant_name (by decide) (by cases scope <;> decide)

theorem variant_priority (priority : Tally.Lease.Priority) :
    Decode.variant priorities priorityStr (.string (priorityStr priority)) = .ok priority :=
  Decode.variant_name (by decide) (by cases priority <;> decide)

theorem variant_source (source : EnqueueSource) :
    Decode.variant enqueueSources EnqueueSource.asStr (.string source.asStr) = .ok source :=
  Decode.variant_name (by decide) (by cases source <;> decide)

theorem variant_labor (labor : Tally.Recovery.LaborClass) :
    Decode.variant laborClasses laborClassStr (.string (laborClassStr labor)) = .ok labor :=
  Decode.variant_name (by decide) (by cases labor <;> decide)

section Decoding

variable [FloatReading] {seconds : F64 → Number} {fields : TallyFields}

omit [FloatReading] in
theorem encodedPools_eq (pools : List String) : encodedPools pools = Poolset.encoded pools := by
  match pools with
  | [] | [_] | _ :: _ :: _ => rfl

omit [FloatReading] in
/-- The pools are read back unless a single one is named like an array. -/
theorem readOptional_pools [StringsText]
    (hget : source.get? FieldName.pool.text = memberOf seconds fields .pool) :
    readOptional decodePools source .pool = .ok fields.pools ↔
      ∀ pools ∈ fields.pools, Poolset.isBracketed pools = false := by
  rw [readOptional_eq decodePools (fun pools => .string (encodedPools pools)) hget
    fun _ _ h => (nomatch h)]
  cases fields.pools with
  | none => exact ⟨fun _ _ h => (nomatch h), fun _ => rfl⟩
  | some pools =>
    have hdecode : decodePools (.string (encodedPools pools)) = .ok pools ↔
        Poolset.isBracketed pools = false := by
      rw [encodedPools_eq]
      exact Poolset.decoded_encoded_iff
    simp only [Option.elim_some, Option.mem_some_iff, forall_eq']
    rw [← hdecode]
    cases decodePools (.string (encodedPools pools)) with
    | error => exact ⟨fun h => (nomatch h), fun h => (nomatch h)⟩
    | ok read => simp [Except.map]

omit [FloatReading] in
theorem map_eq_self_iff {α : Type} {f : α → α} {value : Option α} :
    value.map f = value ↔ ∀ a ∈ value, f a = a := by
  cases value <;> simp

/-- A record is decoded from its members for exactly the pools and the seconds that are read back. -/
theorem decodeFields_eq_ok_iff [StringsText] (htyped : fields.Typed)
    (hget : ∀ name : FieldName, source.get? name.text = memberOf seconds fields name) :
    decodeFields source = .ok fields ↔
      (∀ pools ∈ fields.pools, Poolset.isBracketed pools = false) ∧
        ∀ x ∈ fields.gpuSeconds, FloatReading.parse (seconds x).chars = x := by
  have htext (name : FieldName) (text : String) (h : memberOf seconds fields name = some (.string text)) :
      readRequired Decode.text source name = .ok text := readRequired_eq_ok ((hget name).trans h) rfl
  have hevent : readRequired (Decode.variant tallyEvents TallyEvent.asStr) source .event =
      .ok fields.event := readRequired_eq_ok (hget .event) (variant_event _)
  have htaskRef : readOptional decodeTaskRef source .taskRef = .ok fields.taskRef := by
    refine readOptional_eq_ok (hget .taskRef) (fun _ _ h => (nomatch h)) fun taskRef htaskRef => ?_
    obtain ⟨task, htask⟩ := htyped.taskRef taskRef htaskRef
    exact bind_ok_iff.mpr ⟨taskRef, rfl, bind_ok_iff.mpr ⟨task, htask, rfl⟩⟩
  have hscope : readOptional (Decode.variant projectionScopes JournalProjectionScope.asStr) source
      .projectionScope = .ok fields.projectionScope :=
    readOptional_eq_ok (hget .projectionScope) (fun _ _ h => (nomatch h)) fun _ _ => variant_scope _
  have hpriority : readRequired (Decode.variant priorities priorityStr) source .priority =
      .ok fields.priority := readRequired_eq_ok (hget .priority) (variant_priority _)
  have hsource : readRequired (Decode.variant enqueueSources EnqueueSource.asStr) source .source =
      .ok fields.source := readRequired_eq_ok (hget .source) (variant_source _)
  have hexitCode : readOptional Decode.i32 source .exitCode = .ok fields.exitCode :=
    readOptional_eq_ok (hget .exitCode) (fun _ _ h => (nomatch h)) fun code hcode =>
      Decode.i32_ofInt (htyped.exitCode code hcode).1 (htyped.exitCode code hcode).2
  have htruncated : readOptional Decode.flag source .stderrTruncated = .ok fields.stderrTruncated :=
    readOptional_eq_ok (hget .stderrTruncated) (fun _ _ h => (nomatch h)) fun _ _ => rfl
  have hgpu : readOptional decodeF64 source .gpuSeconds =
      .ok (fields.gpuSeconds.map fun x => FloatReading.parse (seconds x).chars) := by
    rw [readOptional_eq decodeF64 (fun x => .number (seconds x)) (hget .gpuSeconds)
      fun _ _ h => (nomatch h)]
    cases fields.gpuSeconds <;> rfl
  have htokens : readOptional decodeU64 source .contextTokens = .ok fields.contextTokens :=
    readOptional_eq_ok (hget .contextTokens) (fun _ _ h => (nomatch h)) fun n hn =>
      decodeU64_natNumber (htyped.contextTokens n hn)
  have hwindow : readOptional decodeU64 source .contextWindow = .ok fields.contextWindow :=
    readOptional_eq_ok (hget .contextWindow) (fun _ _ h => (nomatch h)) fun n hn =>
      decodeU64_natNumber (htyped.contextWindow n hn)
  have hattempt : readOptional decodeU32 source .attempt = .ok fields.attempt :=
    readOptional_eq_ok (hget .attempt) (fun _ _ h => (nomatch h)) fun n hn =>
      decodeU32_natNumber (htyped.attempt n hn)
  have hepoch : readOptional decodeU64 source .leaseEpoch = .ok fields.leaseEpoch :=
    readOptional_eq_ok (hget .leaseEpoch) (fun _ _ h => (nomatch h)) fun n hn =>
      decodeU64_natNumber (htyped.leaseEpoch n hn)
  have hlabor : readOptional (Decode.variant laborClasses laborClassStr) source .laborClass =
      .ok fields.laborClass :=
    readOptional_eq_ok (hget .laborClass) (fun _ _ h => (nomatch h)) fun _ _ => variant_labor _
  rw [← readOptional_pools (hget .pool)]
  simp only [decodeFields, htext .syslogIdentifier _ rfl, hevent, htext .taskUuid _ rfl, htaskRef,
    readOptional_text (hget .journalScope), hscope, hpriority, hsource, htext .message _ rfl,
    readOptional_text (hget .agent), readOptional_text (hget .sessionRef),
    readOptional_text (hget .unit), hexitCode, readOptional_text (hget .stderrTail), htruncated, hgpu,
    htokens, hwindow, readOptional_text (hget .artifactHash), readOptional_text (hget .evidence),
    hattempt, hepoch, hlabor, readOptional_text (hget .jobId), readOptional_text (hget .parent),
    readOptional_text (hget .executor), bind, Except.bind, pure, Except.pure]
  cases readOptional decodePools source .pool with
  | error => exact ⟨fun h => (nomatch h), fun h => (nomatch h.1)⟩
  | ok pools =>
    rw [← map_eq_self_iff]
    constructor
    · intro h
      rw [Except.ok.injEq] at h
      exact ⟨congrArg (fun read => Except.ok read.pools) h, congrArg TallyFields.gpuSeconds h⟩
    · rintro ⟨hpools, hseconds⟩
      cases hpools
      rw [hseconds]

theorem hydrateFields_eq_ok_iff [StringsText] (htyped : fields.Typed)
    (hspelled : ∀ name : FieldName, Spelled (source.get? name.text) (memberOf seconds fields name)) :
    hydrateFields source = .ok fields ↔
      (∀ pools ∈ fields.pools, Poolset.isBracketed pools = false) ∧
        ∀ x ∈ fields.gpuSeconds, FloatReading.parse (seconds x).chars = x := by
  obtain ⟨normalized, hnormalized, hget⟩ := hydrate_spelled hspelled
  rw [← decodeFields_eq_ok_iff htyped hget]
  obtain ⟨middle, hnumbers, hflag⟩ := bind_ok_iff.mp hnormalized
  unfold hydrateFields
  rw [bind_ok_iff]
  constructor
  · rintro ⟨_, hsame, hrest⟩
    cases hnumbers.symm.trans hsame
    obtain ⟨_, hsame, hdecode⟩ := bind_ok_iff.mp hrest
    cases hflag.symm.trans hsame
    exact mapError_eq_ok.mp hdecode
  · intro hdecode
    exact ⟨middle, hnumbers, bind_ok_iff.mpr ⟨normalized, hflag, mapError_eq_ok.mpr hdecode⟩⟩

/-! ## Lines -/

variable [JsonText]

/-- A line whose JSON is this object. -/
def ReadsAs (line : String) (outer : Fields) : Prop :=
  JsonText.read (trim line.toList) = .ok (.object outer)

/-- The record is read from a line, whatever its time. -/
def ReadsBack [StringsText] (line : String) (fields : TallyFields) : Prop :=
  ∃ realtime, parseJournalJsonLine line = .ok (some ⟨fields, realtime⟩)

theorem parseJournalJsonLine_eq_ok [StringsText] {line : String} {outer : Fields} {realtime : Option Nat}
    (hline : ReadsAs line outer)
    (hsource : sourceOf outer = some source) :
    parseJournalJsonLine line = .ok (some ⟨fields, realtime⟩) ↔
      realtimeUs outer = .ok realtime ∧ hydrateFields source = .ok fields ∧
        validateFields fields = .ok () := by
  have htrim : trim line.toList ≠ [] := by
    intro hnil
    rw [ReadsAs, hnil] at hline
    exact JsonText.read_nil _ hline
  unfold parseJournalJsonLine
  simp only [if_neg htrim]
  rw [hline]
  simp only [bind_ok_iff, mapError_eq_ok, orError_eq_ok, asObject, Except.ok.injEq, exists_eq_left',
    Option.some.injEq, hsource, pure, Except.pure, JournalEntry.mk.injEq]
  constructor
  · rintro ⟨stamp, hstamp, read, hread, _, hvalid, rfl, rfl⟩
    exact ⟨hstamp, hread, hvalid⟩
  · rintro ⟨hstamp, hread, hvalid⟩
    exact ⟨realtime, hstamp, fields, hread, (), hvalid, rfl, rfl⟩

/-- A record is read from a line whose source spells it. -/
theorem readsBack_iff [StringsText] {line : String} {outer : Fields} (htyped : fields.Typed)
    (hvalid : validateFields fields = .ok ()) (hline : ReadsAs line outer)
    (hsource : sourceOf outer = some source)
    (hspelled : ∀ name : FieldName, Spelled (source.get? name.text) (memberOf seconds fields name)) :
    ReadsBack line fields ↔
      ((∀ pools ∈ fields.pools, Poolset.isBracketed pools = false) ∧
        ∀ x ∈ fields.gpuSeconds, FloatReading.parse (seconds x).chars = x) ∧
        ∃ realtime, realtimeUs outer = .ok realtime := by
  rw [← hydrateFields_eq_ok_iff htyped hspelled]
  constructor
  · rintro ⟨realtime, hparse⟩
    obtain ⟨hstamp, hread, -⟩ := (parseJournalJsonLine_eq_ok hline hsource).mp hparse
    exact ⟨hread, realtime, hstamp⟩
  · rintro ⟨hread, realtime, hstamp⟩
    exact ⟨realtime, (parseJournalJsonLine_eq_ok hline hsource).mpr ⟨hstamp, hread, hvalid⟩⟩

omit [JsonText] [FloatReading] in
theorem finite_of_valid (hvalid : validateFields fields = .ok ()) :
    ∀ x ∈ fields.gpuSeconds, x.isFinite = true := by
  obtain ⟨-, -, -, -, -, -, -, hnumbers⟩ := validateFields_eq_ok.mp hvalid
  unfold checkNumbers at hnumbers
  rw [ensure_bind_ok_iff] at hnumbers
  exact fun x hx => (hnumbers.1 x hx).1

omit [JsonText] [FloatReading] in
theorem isScalar_memberOf
    (hseconds : ∀ x ∈ fields.gpuSeconds, isVerbatimNumber (seconds x).chars = true) :
    ∀ name, ∀ value ∈ memberOf seconds fields name, isScalar value = true := by
  intro name value hvalue
  cases name with
  | syslogIdentifier | event | taskUuid | priority | source | message =>
    cases hvalue
    rfl
  | gpuSeconds =>
    obtain ⟨x, hx, rfl⟩ := Option.map_eq_some_iff.mp hvalue
    exact hseconds x hx
  | exitCode =>
    obtain ⟨code, -, rfl⟩ := Option.map_eq_some_iff.mp hvalue
    exact isVerbatimNumber_ofInt code
  | contextTokens | contextWindow | attempt | leaseEpoch =>
    obtain ⟨n, -, rfl⟩ := Option.map_eq_some_iff.mp hvalue
    exact isVerbatimNumber_ofNat n
  | _ =>
    obtain ⟨x, -, rfl⟩ := Option.map_eq_some_iff.mp hvalue
    rfl

omit [JsonText] [FloatReading] in
theorem nodup_stdoutOrder : stdoutOrder.Nodup := by decide

/-- The message of a line is read as the record that was rendered, with its line feed or without. -/
theorem sourceOf_message {bytes : Bytes} {message : String} {outer : Fields}
    (hrender : renderStdoutRecord fields = .ok bytes)
    (hmessage : encode message.toList = bytes ∨ encode message.toList ++ [lf] = bytes)
    (houter : outer.get? FieldName.message.text = some (.string message))
    (hevent : outer.get? FieldName.event.text = none) :
    sourceOf outer = some (members fields) := by
  obtain ⟨hvalid, -, hbytes⟩ := renderStdoutRecord_eq_ok.mp hrender
  have hfinite := finite_of_valid hvalid
  have hflat : FlatObject (members fields) := by
    rw [members_eq]
    exact flatObject_membersOf nodup_stdoutOrder
      (isScalar_memberOf fun x hx => FloatReading.json_number x (hfinite x hx))
  have hline : bytes = encode (render (.object (members fields)) ++ ['\n']) := by
    rw [hbytes, encode_append]
    rfl
  have htext : ∃ space : List Char, space.all isJsonSpace = true ∧
      message.toList = render (.object (members fields)) ++ space := by
    rcases hmessage with hmessage | hmessage
    · exact ⟨['\n'], rfl, encode_inj.mp (hmessage.trans hline)⟩
    · have hwithout := List.append_cancel_right (hmessage.trans hbytes)
      exact ⟨[], rfl, by rw [encode_inj.mp hwithout, List.append_nil]⟩
  obtain ⟨space, hspace, htext⟩ := htext
  have hread : JsonText.read message.toList = .ok (.object (members fields)) := by
    rw [htext]
    exact JsonText.read_render hflat.readable hspace
  have hrecord : isRecord (members fields) = true := by
    rw [isRecord, members_eq, get?_membersOf, if_pos (mem_stdoutOrder _)]
    rfl
  have hnone : isRecord outer = false := by
    rw [isRecord, hevent]
    rfl
  rw [sourceOf, if_neg (by rw [hnone]; exact Bool.false_ne_true), payload, houter]
  simp only [Option.bind_some, asStr, hread, Except.toOption, asObject, Option.filter, hrecord, if_true]

omit [JsonText] [FloatReading] in
/-- Only the seconds of a record depend on the numbers of doubles. -/
theorem memberOf_congr {other : F64 → Number} {name : FieldName} (h : name ≠ .gpuSeconds) :
    memberOf seconds fields name = memberOf other fields name := by
  cases name with
  | gpuSeconds => exact absurd rfl h
  | _ => rfl

omit [JsonText] in
theorem parseNumber_display {x : F64} (h : x.isFinite = true) :
    parseNumber (displayed x).chars = some (hydrated x) := by
  have hnumber := FloatReading.display_number x h
  rw [displayed, dif_pos hnumber, hydrated, parseNumber]
  split
  · rfl
  · rw [Option.getD_some]

/-- A line with the texts of the native packet is its own source. -/
theorem sourceOf_native (hvalid : validateFields fields = .ok ()) {outer : Fields}
    (houter : ∀ name : FieldName, outer.get? name.text = (nativeObject fields).get? name.text) :
    sourceOf outer = some outer ∧
      ∀ name : FieldName, Spelled (outer.get? name.text) (memberOf hydrated fields name) := by
  have hfinite := finite_of_valid hvalid
  have hget (name : FieldName) : outer.get? name.text =
      (memberOf displayed fields name).map fun value => .string (textOf value) := by
    rw [houter name, nativeObject_eq fields fun x hx => FloatReading.display_number x (hfinite x hx),
      get?_membersOf, if_pos (mem_nativeOrder _)]
  constructor
  · rw [sourceOf, isRecord, hget .event]
    rfl
  · intro name
    rw [hget name]
    by_cases hname : name = .gpuSeconds
    · subst hname
      rw [memberOf, memberOf]
      cases hvalue : fields.gpuSeconds with
      | none => exact .same none
      | some x => exact .number (parseNumber_display (hfinite x hvalue))
    · rw [memberOf_congr hname, memberOf_congr hname]
      cases hvalue : memberOf (fun _ => .ofNat 0) fields name with
      | none => exact .same none
      | some value =>
        exact Spelled.textOf (isScalar_memberOf (fun _ _ => isVerbatimNumber_ofNat 0) name value hvalue)

end Decoding

/-! ## The native packet -/

theorem takeWhile_append_sep {sep : UInt8} {piece : Bytes} (h : sep ∉ piece) (rest : Bytes) :
    (piece ++ sep :: rest).takeWhile (· ≠ sep) = piece := by
  have hall : ∀ byte ∈ piece, decide (byte ≠ sep) = true := by
    intro byte hbyte
    rw [decide_eq_true_eq]
    rintro rfl
    exact h hbyte
  rw [List.takeWhile_append_of_pos hall, List.takeWhile_cons]
  simp

theorem drop_append_sep (piece : Bytes) (sep : UInt8) (rest : Bytes) :
    (piece ++ sep :: rest).drop (piece.length + 1) = rest := by
  rw [← List.drop_drop, List.drop_left]
  rfl

/-- The bytes of a number add up to it, up to the width. -/
theorem foldr_bytes (n width : Nat) :
    (((List.range width).map fun i => UInt8.ofNat (n / 256 ^ i)).foldr
      (fun byte rest => byte.toNat + 256 * rest) 0) = n % 256 ^ width := by
  induction width generalizing n with
  | zero => rw [pow_zero, Nat.mod_one]; rfl
  | succ width ih =>
    have hshift : (List.range width).map (fun i => UInt8.ofNat (n / 256 ^ (i + 1))) =
        (List.range width).map fun i => UInt8.ofNat (n / 256 / 256 ^ i) := by
      refine List.map_congr_left fun i _ => ?_
      rw [Nat.div_div_eq_div_mul, pow_succ, Nat.mul_comm]
    have hfirst : (UInt8.ofNat (n / 256 ^ 0)).toNat = n % 256 := by
      rw [pow_zero, Nat.div_one, UInt8.toNat_ofNat']
    rw [List.range_succ_eq_map, List.map_cons, List.map_map, List.foldr_cons, hfirst]
    show n % 256 + 256 * (List.foldr _ 0 ((List.range width).map
      fun i => UInt8.ofNat (n / 256 ^ (i + 1)))) = _
    rw [hshift, ih, pow_succ, Nat.mul_comm (256 ^ width) 256, Nat.mod_mul]

theorem fromLeBytes_toLeBytes {n : Nat} (h : n < 2 ^ 64) : fromLeBytes (toLeBytes n) = n := by
  rw [fromLeBytes, toLeBytes, foldr_bytes]
  exact Nat.mod_eq_of_lt h

theorem separators_not_mem_text (name : FieldName) :
    lf ∉ encode name.text.toList ∧ equalsSign ∉ encode name.text.toList := by
  cases name <;> decide

theorem readNativeField_append (name : FieldName) {value : String}
    (h : (encode value.toList).length < 2 ^ 64) (rest : Bytes) :
    readNativeField (nativeField name value ++ rest) =
      some ((encode name.text.toList, encode value.toList), rest) := by
  obtain ⟨hlf, hequals⟩ := separators_not_mem_text name
  have hsign : encode ['='] = [equalsSign] := rfl
  unfold nativeField
  simp only
  split
  · next hvalue =>
    have hpacket : encode name.text.toList ++ [lf] ++ toLeBytes (encode value.toList).length ++
        encode value.toList ++ [lf] ++ rest = encode name.text.toList ++ lf ::
          (toLeBytes (encode value.toList).length ++ (encode value.toList ++ lf :: rest)) := by
      simp only [List.append_assoc, List.cons_append, List.nil_append]
    have hwidth : (toLeBytes (encode value.toList).length).length = 8 := by
      rw [toLeBytes, List.length_map, List.length_range]
    rw [hpacket, readNativeField, if_pos (by simp)]
    simp only [takeWhile_append_sep hlf, drop_append_sep, if_neg hequals]
    generalize hcount : toLeBytes (encode value.toList).length = count at hwidth ⊢
    rw [List.take_left' hwidth, List.drop_left' hwidth, ← hcount, fromLeBytes_toLeBytes h,
      List.take_left, drop_append_sep, if_pos]
    rw [List.length_append, hcount, hwidth]
    exact ⟨by omega, by simp⟩
  · next hvalue =>
    have hpacket : encode name.text.toList ++ encode ['='] ++ encode value.toList ++ [lf] ++ rest =
        (encode name.text.toList ++ equalsSign :: encode value.toList) ++ lf :: rest := by
      rw [hsign]
      simp only [List.append_assoc, List.cons_append, List.nil_append]
    have hline : lf ∉ encode name.text.toList ++ equalsSign :: encode value.toList := by
      rw [List.mem_append, List.mem_cons, not_or, not_or]
      exact ⟨hlf, by decide, hvalue⟩
    rw [hpacket, readNativeField, if_pos (by simp)]
    simp only [takeWhile_append_sep hline, drop_append_sep]
    rw [if_pos (by simp)]
    simp only [takeWhile_append_sep hequals, drop_append_sep]

theorem nativeField_ne_nil (name : FieldName) (value : String) : nativeField name value ≠ [] := by
  unfold nativeField
  simp only
  split <;> simp

theorem readNativeFields_flatMap {values : List (FieldName × String)} {fuel : Nat}
    (h : ∀ field ∈ values, (encode field.2.toList).length < 2 ^ 64) (hfuel : values.length ≤ fuel) :
    readNativeFields fuel (values.flatMap fun (name, value) => nativeField name value) =
      some (values.map fun (name, value) => (encode name.text.toList, encode value.toList)) := by
  induction values generalizing fuel with
  | nil => cases fuel <;> rfl
  | cons field values ih =>
    obtain ⟨name, value⟩ := field
    cases fuel with
    | zero => cases hfuel
    | succ fuel =>
      have hrest := ih (fun field hfield => h field (List.mem_cons_of_mem _ hfield))
        (Nat.le_of_succ_le_succ hfuel)
      have hfield := readNativeField_append name (h _ List.mem_cons_self)
        (values.flatMap fun (name, value) => nativeField name value)
      rw [List.flatMap_cons, readNativeFields]
      · rw [hfield]
        simp only [Option.bind_eq_bind, Option.bind_some, hrest]
        rfl
      · intro hnil
        exact nativeField_ne_nil name value (List.append_eq_nil_iff.mp hnil).1

theorem length_le_length_packet (values : List (FieldName × String)) :
    values.length ≤ (values.flatMap fun (name, value) => nativeField name value).length := by
  induction values with
  | nil => exact Nat.zero_le _
  | cons field values ih =>
    obtain ⟨name, value⟩ := field
    have hpos : 1 ≤ (nativeField name value).length :=
      List.length_pos_of_ne_nil (nativeField_ne_nil name value)
    rw [List.flatMap_cons, List.length_append, List.length_cons, Nat.add_comm values.length]
    exact Nat.add_le_add hpos ih

theorem length_encode_le_packet {values : List (FieldName × String)} {field : FieldName × String}
    (h : field ∈ values) :
    (encode field.2.toList).length ≤
      (values.flatMap fun (name, value) => nativeField name value).length := by
  have hvalue : (encode field.2.toList).length ≤ (nativeField field.1 field.2).length := by
    unfold nativeField
    simp only
    split <;> simp only [List.length_append] <;> omega
  refine Nat.le_trans hvalue (List.Sublist.length_le ?_)
  rw [List.flatMap_def]
  exact List.sublist_flatten_of_mem (List.mem_map.mpr ⟨field, h, rfl⟩)

/-- Each field of the packet once, with its value. -/
theorem decodeNative_encode [FloatTexts] {fields : TallyFields} {packet : Bytes}
    (h : encodeNativeRecord fields = .ok packet) :
    decodeNative packet =
      some ((nativeFields fields).map fun (name, value) =>
        (encode name.text.toList, encode value.toList)) := by
  unfold encodeNativeRecord at h
  rw [unit_bind_ok_iff, ensure_bind_ok_iff] at h
  obtain ⟨-, hsize, hpacket⟩ := h
  obtain rfl := Except.ok.inj hpacket
  rw [decodeNative]
  apply readNativeFields_flatMap
  · intro field hfield
    have hmax : maxNativeRecordBytes < 2 ^ 64 := by decide
    exact Nat.lt_of_le_of_lt (Nat.le_trans (length_encode_le_packet hfield) hsize) hmax
  · exact length_le_length_packet _

theorem nodup_nativeFields [FloatReading] {fields : TallyFields}
    (hvalid : validateFields fields = .ok ()) : ((nativeFields fields).map Prod.fst).Nodup := by
  have hfinite := finite_of_valid hvalid
  rw [nativeFields_eq fields fun x hx => FloatReading.display_number x (hfinite x hx)]
  have hnames (names : List FieldName) (values : FieldName → Option String) :
      (names.filterMap fun name => (values name).map fun text => (name, text)).map Prod.fst =
        names.filter fun name => (values name).isSome := by
    induction names with
    | nil => rfl
    | cons first names ih =>
      rw [List.filterMap_cons, List.filter_cons]
      cases values first with
      | none => exact ih
      | some text => exact congrArg (List.cons first) ih
  rw [hnames nativeOrder]
  exact nodup_nativeOrder.filter _

/-! ## Both forms -/

/-- The records whose pools are not a single one with a name that begins with a bracket. -/
def TallyFields.poolsReadable (fields : TallyFields) : Bool :=
  fields.pools.all fun pools => !Poolset.isBracketed pools

theorem TallyFields.poolsReadable_iff {fields : TallyFields} :
    fields.poolsReadable = true ↔ ∀ pools ∈ fields.pools, Poolset.isBracketed pools = false := by
  unfold poolsReadable
  cases fields.pools with
  | none => exact ⟨fun _ _ h => (nomatch h), fun _ => rfl⟩
  | some pools => simp

section Both

variable [FloatReading] [JsonText] {fields : TallyFields} {line : String} {outer : Fields}

theorem readsBack_message_iff [StringsText] {bytes : Bytes} {message : String} (htyped : fields.Typed)
    (hrender : renderStdoutRecord fields = .ok bytes)
    (hmessage : encode message.toList = bytes ∨ encode message.toList ++ [lf] = bytes)
    (hline : ReadsAs line outer)
    (houter : outer.get? FieldName.message.text = some (.string message))
    (hevent : outer.get? FieldName.event.text = none) :
    ReadsBack line fields ↔
      fields.poolsReadable = true ∧ ∃ realtime, realtimeUs outer = .ok realtime := by
  have hvalid := (renderStdoutRecord_eq_ok.mp hrender).1
  have hfinite := finite_of_valid hvalid
  have hspelled : ∀ name : FieldName, Spelled ((members fields).get? name.text)
      (memberOf FloatTexts.json fields name) := by
    intro name
    rw [members_eq, get?_membersOf, if_pos (mem_stdoutOrder name)]
    exact .same _
  have hseconds : ∀ x ∈ fields.gpuSeconds, FloatReading.parse (FloatTexts.json x).chars = x :=
    fun x hx => FloatReading.parse_json x (hfinite x hx)
  rw [TallyFields.poolsReadable_iff,
    readsBack_iff htyped hvalid hline (sourceOf_message hrender hmessage houter hevent) hspelled,
    and_iff_left hseconds]

omit [JsonText] in
/-- A double is read from its text unless it is a zero with a sign. -/
theorem parse_hydrated_iff {x : F64} (h : x.isFinite = true) :
    FloatReading.parse (hydrated x).chars = x ↔ x ≠ negativeZero := by
  have hnumber := FloatReading.display_number x h
  have hparse := FloatReading.parse_display x h
  rw [hydrated, parseNumber]
  split
  · next hsign =>
    -- the text is that of a zero with a sign, and is read as a zero without one
    have hnegative := FloatReading.parse_display negativeZero (by decide)
    have hpositive := FloatReading.parse_display positiveZero (by decide)
    rw [FloatReading.display_negativeZero] at hnegative
    rw [FloatReading.display_positiveZero] at hpositive
    have hx : x = negativeZero := by
      rw [← hparse, hsign]
      exact hnegative
    have hzero : FloatReading.parse (Number.ofNat 0).chars = positiveZero := hpositive
    rw [Option.getD_some, hzero, hx]
    decide
  · next hsign =>
    rw [Option.getD_some]
    refine iff_of_true hparse ?_
    rintro rfl
    apply hsign
    rw [FloatReading.display_negativeZero]
    rfl

theorem readsBack_native_iff [StringsText] (htyped : fields.Typed) (hvalid : validateFields fields = .ok ())
    (hline : ReadsAs line outer)
    (houter : ∀ name : FieldName, outer.get? name.text = (nativeObject fields).get? name.text) :
    ReadsBack line fields ↔
      (fields.poolsReadable = true ∧ fields.gpuSeconds ≠ some negativeZero) ∧
        ∃ realtime, realtimeUs outer = .ok realtime := by
  have hfinite := finite_of_valid hvalid
  obtain ⟨hsource, hspelled⟩ := sourceOf_native hvalid houter
  have hseconds : (∀ x ∈ fields.gpuSeconds, FloatReading.parse (hydrated x).chars = x) ↔
      fields.gpuSeconds ≠ some negativeZero := by
    cases hvalue : fields.gpuSeconds with
    | none => simp
    | some x => simp [parse_hydrated_iff (hfinite x hvalue)]
  rw [TallyFields.poolsReadable_iff, readsBack_iff htyped hvalid hline hsource hspelled, hseconds]

omit [JsonText] in
theorem valid_of_encode {packet : Bytes} (h : encodeNativeRecord fields = .ok packet) :
    validateFields fields = .ok () := by
  unfold encodeNativeRecord at h
  exact (unit_bind_ok_iff.mp h).1

end Both

/-- Of the record of a task, the line of JSON, as the message of a line of the journal, and the
native packet, as the texts that the journal keeps, are read back exactly when its pools are
readable and the time of the line is, and the packet has no zero with a sign. Nothing depends on what
the message and the captured tail say. -/
theorem records_read_back_iff [FloatReading] [JsonText] [StringsText] {fields : TallyFields}
    (htyped : fields.Typed) :
    (∀ (bytes : Bytes) (message line : String) (outer : Fields),
      renderStdoutRecord fields = .ok bytes →
      (encode message.toList = bytes ∨ encode message.toList ++ [lf] = bytes) →
      ReadsAs line outer → outer.get? FieldName.message.text = some (.string message) →
      outer.get? FieldName.event.text = none →
      (ReadsBack line fields ↔
        fields.poolsReadable = true ∧ ∃ realtime, realtimeUs outer = .ok realtime)) ∧
    ∀ packet, encodeNativeRecord fields = .ok packet →
      decodeNative packet =
        some ((nativeFields fields).map fun (name, value) =>
          (encode name.text.toList, encode value.toList)) ∧
      ((nativeFields fields).map Prod.fst).Nodup ∧
      ∀ (line : String) (outer : Fields), ReadsAs line outer →
        (∀ name : FieldName, outer.get? name.text = (nativeObject fields).get? name.text) →
        (ReadsBack line fields ↔
          (fields.poolsReadable = true ∧ fields.gpuSeconds ≠ some negativeZero) ∧
            ∃ realtime, realtimeUs outer = .ok realtime) := by
  constructor
  · intro bytes message line outer hrender hmessage hline houter hevent
    exact readsBack_message_iff htyped hrender hmessage hline houter hevent
  · intro packet hpacket
    have hvalid := valid_of_encode hpacket
    refine ⟨decodeNative_encode hpacket, nodup_nativeFields hvalid, ?_⟩
    exact fun line outer hline houter => readsBack_native_iff htyped hvalid hline houter

/-! ## A pool named like an array -/

namespace RecordSample

theorem length_encode_le (text : List Char) : (encode text).length ≤ 4 * text.length := by
  induction text with
  | nil => exact Nat.zero_le _
  | cons c text ih =>
    have hc : (String.utf8EncodeChar c).length ≤ 4 := by
      rw [String.length_utf8EncodeChar]
      exact c.utf8Size_le_four
    have hcons : encode (c :: text) = String.utf8EncodeChar c ++ encode text := rfl
    rw [hcons, List.length_append, List.length_cons]
    omega

/-- The digits of the bits of a double. -/
def bitsText (x : F64) : List Char := Nat.toDigits 10 x.bits.toNat

theorem bits_bitsText (x : F64) : (⟨BitVec.ofNat 64 (Nat.ofDigitChars 10 (bitsText x) 0)⟩ : F64) = x := by
  rw [bitsText, Nat.ofDigitChars_ten_toDigits, BitVec.ofNat_toNat, BitVec.setWidth_eq]

theorem bitsText_ne_sign (x : F64) : bitsText x ≠ ['-', '0'] := by
  intro h
  have hhead : (bitsText x).head? ≠ some '-' := head_toDigits_ne_sign x.bits.toNat
  rw [h] at hhead
  exact hhead rfl

/-- Texts of doubles by their bits. -/
local instance floatReading : FloatReading where
  json x := .ofNat x.bits.toNat
  display x := if x = negativeZero then "-0" else String.ofList (bitsText x)
  display_le x := by
    have hdigits : (Nat.toDigits 10 x.bits.toNat).length ≤ 20 := by
      rw [Nat.length_toDigits_le_iff (by decide) (by decide)]
      exact Nat.lt_trans x.bits.isLt (by decide)
    have hle := length_encode_le (Nat.toDigits 10 x.bits.toNat)
    split
    · decide
    · rw [String.toList_ofList]
      show (encode (Nat.toDigits 10 x.bits.toNat)).length ≤ 400
      omega
  parse text :=
    if text = ['-', '0'] then negativeZero else ⟨BitVec.ofNat 64 (Nat.ofDigitChars 10 text 0)⟩
  json_number x _ := isVerbatimNumber_ofNat _
  parse_json x _ := by
    have hchars : (Number.ofNat x.bits.toNat).chars = bitsText x := rfl
    rw [hchars, if_neg (bitsText_ne_sign x), bits_bitsText]
  display_number x _ := by
    split
    · decide
    · rw [String.toList_ofList]
      exact isJsonNumber_ofNat _
  parse_display x _ := by
    split
    · next hx =>
      rw [hx]
      rfl
    · rw [String.toList_ofList, if_neg (bitsText_ne_sign x), bits_bitsText]
  display_positiveZero := by decide
  display_negativeZero := by decide

theorem renderFields_eq_concat (fields : Fields) :
    ∃ front, renderFields fields = front ++ ['\x7d'] := by
  induction fields with
  | nil => exact ⟨[], rfl⟩
  | cons field fields ih =>
    obtain ⟨key, value⟩ := field
    obtain ⟨front, hfront⟩ := ih
    refine ⟨',' :: (renderString key ++ ':' :: (render value ++ front)), ?_⟩
    rw [renderFields, hfront]
    simp only [List.append_assoc, List.cons_append]

/-- White space after an object is told from it. -/
theorem rdropWhile_render_object {isSpace : Char → Bool} (hbrace : isSpace '\x7d' = false)
    (fields : Fields) {space : List Char} (h : space.all isSpace = true) :
    (render (.object fields) ++ space).rdropWhile isSpace = render (.object fields) := by
  have hconcat : ∃ front, render (.object fields) = front ++ ['\x7d'] := by
    cases fields with
    | nil => exact ⟨['\x7b'], by rw [render]; rfl⟩
    | cons field fields =>
      obtain ⟨key, value⟩ := field
      obtain ⟨front, hfront⟩ := renderFields_eq_concat fields
      refine ⟨'\x7b' :: (renderString key ++ ':' :: (render value ++ front)), ?_⟩
      rw [render, hfront]
      simp only [List.append_assoc, List.cons_append]
  obtain ⟨front, hfront⟩ := hconcat
  have hspace : ∀ c ∈ space.reverse, isSpace c = true := fun c hc =>
    List.all_eq_true.mp h c (List.mem_reverse.mp hc)
  rw [hfront, List.rdropWhile, List.reverse_append, List.dropWhile_append_of_pos hspace,
    List.reverse_append]
  show (List.dropWhile isSpace ('\x7d' :: front.reverse)).reverse = _
  rw [List.dropWhile_cons, if_neg (by rw [hbrace]; exact Bool.false_ne_true), List.reverse_cons, List.reverse_reverse]

local instance : JsonText := compactReader

local instance : StringsText := scanningReader

def record (pool message : String) : TallyFields where
  syslogIdentifier := "tally"
  event := .enqueued
  taskUuid := "task-abc"
  taskRef := some "crm/t07"
  journalScope := none
  projectionScope := none
  priority := .high
  source := .manual
  message := message
  agent := none
  sessionRef := some ""
  unit := none
  exitCode := some 0
  stderrTail := none
  stderrTruncated := none
  gpuSeconds := none
  contextTokens := some 1234
  contextWindow := none
  artifactHash := none
  evidence := none
  attempt := none
  leaseEpoch := none
  laborClass := none
  jobId := none
  parent := none
  pools := some [pool]
  executor := none

theorem typed (pool message : String) : (record pool message).Typed where
  taskRef taskRef h := by
    cases h
    exact ⟨"t07", rfl⟩
  exitCode code h := by
    cases h
    decide
  contextTokens n h := by
    cases h
    decide
  contextWindow n h := by cases h
  attempt n h := by cases h
  leaseEpoch n h := by cases h

/-- The line of the journal with the line of a record as its message. -/
def wrapped (fields : TallyFields) : Fields :=
  [(FieldName.message.text, .string (String.ofList (render (.object (members fields)))))]

/-- The line of the journal with the texts of a record, and the time at which it was received. -/
def stored (fields : TallyFields) : Fields :=
  ("__REALTIME_TIMESTAMP", .string "1700000000000000") :: nativeObject fields

def lineOf (outer : Fields) : String := String.ofList (render (.object outer))

theorem readsAs_lineOf {outer : Fields} (h : FlatObject outer) : ReadsAs (lineOf outer) outer := by
  have htrim : trim (lineOf outer).toList = render (.object outer) := by
    obtain ⟨rest, hrest⟩ := exists_render_object outer
    have hstart : (render (.object outer)).dropWhile isWhitespace = render (.object outer) := by
      rw [hrest]
      rfl
    have hend : (render (.object outer) ++ []).rdropWhile isWhitespace = render (.object outer) :=
      rdropWhile_render_object rfl outer rfl
    rw [List.append_nil] at hend
    rw [trim, lineOf, String.toList_ofList, hstart, hend]
  rw [ReadsAs, htrim]
  exact JsonText.read_compact h.readable

theorem exists_of_isOk {ε α : Type} {x : Except ε α} (h : x.isOk = true) : ∃ a, x = .ok a := by
  cases x with
  | error => cases h
  | ok a => exact ⟨a, rfl⟩

theorem get?_stored (fields : TallyFields) (name : FieldName) :
    (stored fields).get? name.text = (nativeObject fields).get? name.text := by
  have hne : "__REALTIME_TIMESTAMP" ≠ name.text := by
    cases name <;> decide
  rw [stored, Fields.get?, if_neg hne]

/-- The line of a record without its line feed is the message of the line that wraps it. -/
theorem readsBack_wrapped {fields : TallyFields} {bytes : Bytes} (htyped : fields.Typed)
    (hrender : renderStdoutRecord fields = .ok bytes) (hflat : FlatObject (wrapped fields)) :
    ReadsBack (lineOf (wrapped fields)) fields ↔ fields.poolsReadable = true := by
  have hmessage : encode (String.ofList (render (.object (members fields)))).toList ++ [lf] = bytes := by
    rw [(renderStdoutRecord_eq_ok.mp hrender).2.2, String.toList_ofList]
  rw [readsBack_message_iff htyped hrender (.inr hmessage) (readsAs_lineOf hflat) rfl rfl]
  exact ⟨fun h => h.1, fun h => ⟨h, none, rfl⟩⟩

/-- A name that begins with a bracket passes the check and is sent in both forms, and neither form is
read back. -/
theorem bracketed_pool_lost :
    (record "[gpu" "m").Typed ∧ (renderStdoutRecord (record "[gpu" "m")).isOk = true ∧
      (encodeNativeRecord (record "[gpu" "m")).isOk = true ∧
      ReadsAs (lineOf (wrapped (record "[gpu" "m"))) (wrapped (record "[gpu" "m")) ∧
      ¬ReadsBack (lineOf (wrapped (record "[gpu" "m"))) (record "[gpu" "m") ∧
      ReadsAs (lineOf (stored (record "[gpu" "m"))) (stored (record "[gpu" "m")) ∧
      ¬ReadsBack (lineOf (stored (record "[gpu" "m"))) (record "[gpu" "m") := by
  have hrender : (renderStdoutRecord (record "[gpu" "m")).isOk = true := by decide +kernel
  have hencode : (encodeNativeRecord (record "[gpu" "m")).isOk = true := by decide +kernel
  have hwrapped : FlatObject (wrapped (record "[gpu" "m")) := by
    constructor <;> decide +kernel
  have hstored : FlatObject (stored (record "[gpu" "m")) := by
    constructor <;> decide +kernel
  obtain ⟨bytes, hbytes⟩ := exists_of_isOk hrender
  refine ⟨typed _ _, hrender, hencode, readsAs_lineOf hwrapped, ?_, readsAs_lineOf hstored, ?_⟩
  · intro hread
    cases (readsBack_wrapped (typed _ _) hbytes hwrapped).mp hread
  · intro hread
    have hvalid := (renderStdoutRecord_eq_ok.mp hbytes).1
    cases ((readsBack_native_iff (typed _ _) hvalid (readsAs_lineOf hstored) (get?_stored _)).mp
      hread).1.1

/-- A message that is itself a record, and has more than one line. -/
def nested : TallyFields := record "gpu" "\x7b\x22TALLY_EVENT\x22:\x22completed\x22\x7d\n=\n"

theorem nested_message_read_back :
    ReadsBack (lineOf (wrapped nested)) nested ∧ ReadsBack (lineOf (stored nested)) nested := by
  have hwrapped : FlatObject (wrapped nested) := by
    constructor <;> decide +kernel
  have hstored : FlatObject (stored nested) := by
    constructor <;> decide +kernel
  have hrender : (renderStdoutRecord nested).isOk = true := by decide +kernel
  have hencode : (encodeNativeRecord nested).isOk = true := by decide +kernel
  obtain ⟨bytes, hrender⟩ := exists_of_isOk hrender
  obtain ⟨packet, hencode⟩ := exists_of_isOk hencode
  obtain ⟨hstdout, hnative⟩ := records_read_back_iff (typed "gpu" nested.message)
  constructor
  · refine (hstdout bytes _ _ (wrapped nested) hrender ?_ (readsAs_lineOf hwrapped) rfl rfl).mpr ⟨rfl, ?_⟩
    · right
      rw [(renderStdoutRecord_eq_ok.mp hrender).2.2, String.toList_ofList]
    · exact ⟨none, rfl⟩
  · obtain ⟨-, -, hlines⟩ := hnative packet hencode
    refine (hlines _ _ (readsAs_lineOf hstored) (get?_stored nested)).mpr ⟨⟨rfl, by decide⟩, ?_⟩
    exact ⟨some 1700000000000000, by decide +kernel⟩

end RecordSample

end Tally.Journal
