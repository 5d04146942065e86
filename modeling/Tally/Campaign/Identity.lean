import Tally.Campaign.Contract

/-!
# Identities of tasks

The hashes under which a task is completed and attempted (`campaign_contract.rs`). Both are digests of
canonical JSON of a part of the manifest, and what that part is can be read off the hash:
`identities_cover_exactly`.
-/

namespace Tally.Campaign

open Tally.Lib
open Tally.Witness (Libraries natValue present strings)

/-! ## Encoders -/

/-- `Option` without `skip_serializing_if`. -/
def nullable (value : Option Value) : Value := value.getD .null

def CampaignTaskReference.toValue (reference : CampaignTaskReference) : Value :=
  .object (present [("id", some (.string reference.id)), ("kind", some (.string reference.kind)),
    ("issue", some (natValue reference.issue.toNat)),
    ("dependencies", some (strings reference.dependencies)),
    ("conflictDomains", reference.conflictDomains.map strings),
    ("argv", some (nullable (reference.argv.map strings))),
    ("runtimeMaxSec", some (nullable (reference.runtimeMaxSec.map (natValue ·.toNat))))])

def CanonicalCampaignTask.toValue (content : CanonicalCampaignTask) : Value :=
  .object (present [("number", some (natValue content.number.toNat)),
    ("title", some (.string content.title)), ("body", some (.string content.body))])

def CampaignGate.toValue : CampaignGate → Value
  | .command id preflightArgv argv runtimeMaxSec =>
    .object (present [("kind", some (.string "command")), ("id", some (.string id)),
      ("preflightArgv", some (strings preflightArgv)), ("argv", some (strings argv)),
      ("runtimeMaxSec", some (natValue runtimeMaxSec.toNat))])
  | .forbidPaths id patterns runtimeMaxSec =>
    .object (present [("kind", some (.string "forbidPaths")), ("id", some (.string id)),
      ("forbidPaths", some (strings patterns)),
      ("runtimeMaxSec", some (natValue runtimeMaxSec.toNat))])

/-! ## Identities -/

/-- The text is compact and the members of objects are sorted by name. -/
def canonicalJson (value : Value) : List Char := writeSorted value

/-- What a completion is an answer to. -/
def writerTuple (campaign : String) (task : CampaignTaskReference) (content : CanonicalCampaignTask) :
    Value :=
  .object (present [("contractVersion", some (natValue 1)), ("campaign", some (.string campaign)),
    ("task", some task.toValue), ("content", some content.toValue)])

/-- What an attempt is given. -/
def taskInput (task : CampaignTaskReference) (content : CanonicalCampaignTask)
    (gates : List CampaignGate) : Value :=
  .object (present [("contractVersion", some (natValue 1)), ("task", some task.toValue),
    ("content", some content.toValue), ("gates", some (.array (gates.map CampaignGate.toValue)))])

def hashedText (value : Value) : Bytes := encode (canonicalJson value)

section

variable [Libraries]

def canonicalDigest (value : Value) : String := "sha256:" ++ Witness.sha256 (hashedText value)

def taskCompletionRevision (manifest : CampaignManifest) (reference : CampaignTaskReference)
    (content : CanonicalCampaignTask) : String :=
  canonicalDigest (writerTuple manifest.name reference content)

def taskInputHash (manifest : CampaignManifest) (reference : CampaignTaskReference)
    (content : CanonicalCampaignTask) : String :=
  canonicalDigest (taskInput reference content manifest.gates)

end

/-! ## Derived encoders up to the order of members -/

theorem alike_refl (value : Value) : Alike value value := alike_of_sorted_eq rfl

theorem mem_present {members : List (String × Option Value)} {key : String} {value : Value} :
    (key, value) ∈ present members ↔ (key, some value) ∈ members := by
  rw [present, List.mem_filterMap]
  constructor
  · rintro ⟨⟨k, v⟩, hmem, hv⟩
    cases v with
    | none => cases hv
    | some v =>
      cases hv
      exact hmem
  · exact fun hmem => ⟨_, hmem, rfl⟩

theorem names_present_nodup {members : List (String × Option Value)}
    (h : (members.map Prod.fst).Nodup) : ((present members).map Prod.fst).Nodup := by
  refine List.Nodup.sublist ?_ h
  induction members with
  | nil => exact .slnil
  | cons member rest ih =>
    obtain ⟨key, value⟩ := member
    rw [List.map_cons, List.nodup_cons] at h
    cases value with
    | none => exact (ih h.2).cons _
    | some value => exact (ih h.2).cons_cons _

theorem member_unique {members : List (String × Option Value)} (h : (members.map Prod.fst).Nodup)
    {key : String} {x y : Option Value} (hx : (key, x) ∈ members) (hy : (key, y) ∈ members) : x = y := by
  have heq := List.inj_on_of_nodup_map h hx hy rfl
  exact (Prod.mk.injEq .. ▸ heq).2

/-- Members of one name of objects that are alike are alike, or left out of both. -/
theorem alike_present_member {a b : List (String × Option Value)}
    (h : Alike (.object (present a)) (.object (present b))) (ha : (a.map Prod.fst).Nodup)
    (hb : (b.map Prod.fst).Nodup) {key : String} {x y : Option Value} (hx : (key, x) ∈ a)
    (hy : (key, y) ∈ b) : Option.Rel Alike x y := by
  cases x with
  | some v =>
    have hget := (get?_eq_some_iff_mem (names_present_nodup ha)).mpr (mem_present.mpr hx)
    obtain ⟨w, hw, halike⟩ := h.member (names_present_nodup hb) hget
    have hmem := mem_present.mp ((get?_eq_some_iff_mem (names_present_nodup hb)).mp hw)
    rw [member_unique hb hy hmem]
    exact .some halike
  | none =>
    cases y with
    | none => exact .none
    | some w =>
      have hname : key ∈ (present a).map Prod.fst :=
        h.names_perm.mem_iff.mpr (List.mem_map.mpr ⟨_, mem_present.mpr hy, rfl⟩)
      obtain ⟨⟨k, v⟩, hmem, rfl⟩ := List.mem_map.mp hname
      exact nomatch member_unique ha hx (mem_present.mp hmem)

/-- The members of objects of one shape, side by side. -/
theorem alike_present_members {a b : List (String × Option Value)} (names : List String)
    (h : Alike (.object (present a)) (.object (present b))) (hnodup : names.Nodup)
    (ha : a.map Prod.fst = names) (hb : b.map Prod.fst = names) :
    List.Forall₂ (Option.Rel Alike) (a.map Prod.snd) (b.map Prod.snd) := by
  have hlength : a.length = b.length := by
    rw [← List.length_map Prod.fst, ha, ← hb, List.length_map]
  rw [List.forall₂_map_left_iff, List.forall₂_map_right_iff, List.forall₂_iff_get]
  refine ⟨hlength, fun i hi hj => ?_⟩
  have hname : (a.get ⟨i, hi⟩).1 = (b.get ⟨i, hj⟩).1 := by
    have heq := congrArg (fun list => list[i]?) (ha.trans hb.symm)
    simp only [List.getElem?_map, List.getElem?_eq_getElem hi, List.getElem?_eq_getElem hj,
      Option.map_some, Option.some.injEq] at heq
    exact heq
  have hleft : ((a.get ⟨i, hi⟩).1, (a.get ⟨i, hi⟩).2) ∈ a := List.get_mem a ⟨i, hi⟩
  have hright : ((a.get ⟨i, hi⟩).1, (b.get ⟨i, hj⟩).2) ∈ b := hname ▸ List.get_mem b ⟨i, hj⟩
  exact alike_present_member h (ha ▸ hnodup) (hb ▸ hnodup) hleft hright

theorem toDigits_inj {m n : Nat} (h : Nat.toDigits 10 m = Nat.toDigits 10 n) : m = n := by
  rw [← Nat.ofDigitChars_ten_toDigits (n := m), h, Nat.ofDigitChars_ten_toDigits]

theorem alike_natValue_iff {m n : Nat} : Alike (natValue m) (natValue n) ↔ m = n := by
  rw [natValue, natValue, alike_number_iff, Number.ofNat, Number.ofNat, Number.mk.injEq]
  exact ⟨toDigits_inj, fun h => h ▸ rfl⟩

theorem alike_strings_iff {a b : List String} : Alike (strings a) (strings b) ↔ a = b :=
  alike_array_map_iff fun _ _ => alike_string_iff

theorem alike_nullable_iff {α : Type} {f : α → Value} (hf : ∀ x y, Alike (f x) (f y) ↔ x = y)
    (hnull : ∀ x, ¬ Alike (f x) .null ∧ ¬ Alike .null (f x)) {a b : Option α} :
    Alike (nullable (a.map f)) (nullable (b.map f)) ↔ a = b := by
  cases a with
  | none =>
    cases b with
    | none => exact ⟨fun _ => rfl, fun _ => .null⟩
    | some y => exact ⟨fun h => absurd h (hnull y).2, fun h => nomatch h⟩
  | some x =>
    cases b with
    | none => exact ⟨fun h => absurd h (hnull x).1, fun h => nomatch h⟩
    | some y => exact (hf x y).trans (Option.some.injEq x y ▸ Iff.rfl)

theorem rel_some_iff {v w : Value} : Option.Rel Alike (some v) (some w) ↔ Alike v w :=
  ⟨fun h => by cases h; assumption, .some⟩

theorem rel_map_strings_iff {a b : Option (List String)} :
    Option.Rel Alike (a.map strings) (b.map strings) ↔ a = b := by
  cases a with
  | none =>
    cases b with
    | none => exact ⟨fun _ => rfl, fun _ => .none⟩
    | some y => exact ⟨fun h => (nomatch h), fun h => (nomatch h)⟩
  | some x =>
    cases b with
    | none => exact ⟨fun h => (nomatch h), fun h => (nomatch h)⟩
    | some y => exact rel_some_iff.trans (alike_strings_iff.trans (Option.some.injEq x y ▸ Iff.rfl))

theorem CanonicalCampaignTask.alike_iff {c d : CanonicalCampaignTask} :
    Alike c.toValue d.toValue ↔ c = d := by
  refine ⟨fun h => ?_, fun h => h ▸ alike_refl _⟩
  obtain ⟨_, _, _⟩ := c
  obtain ⟨_, _, _⟩ := d
  have hmembers := alike_present_members ["number", "title", "body"] h (by decide) rfl rfl
  simp only [List.map_cons, List.forall₂_cons, rel_some_iff, alike_natValue_iff, UInt64.toNat_inj,
    alike_string_iff] at hmembers
  obtain ⟨rfl, rfl, rfl, -⟩ := hmembers
  rfl

theorem alike_optionStrings_iff {a b : Option (List String)} :
    Alike (nullable (a.map strings)) (nullable (b.map strings)) ↔ a = b :=
  alike_nullable_iff (fun _ _ => alike_strings_iff)
    fun _ => ⟨fun h => (nomatch h), fun h => (nomatch h)⟩

theorem alike_optionNat_iff {a b : Option UInt64} :
    Alike (nullable (a.map (natValue ·.toNat))) (nullable (b.map (natValue ·.toNat))) ↔ a = b :=
  alike_nullable_iff (fun _ _ => alike_natValue_iff.trans UInt64.toNat_inj)
    fun _ => ⟨fun h => (nomatch h), fun h => (nomatch h)⟩

theorem CampaignTaskReference.alike_iff {r s : CampaignTaskReference} :
    Alike r.toValue s.toValue ↔ r = s := by
  refine ⟨fun h => ?_, fun h => h ▸ alike_refl _⟩
  obtain ⟨_, _, _, _, _, _, _⟩ := r
  obtain ⟨_, _, _, _, _, _, _⟩ := s
  have hmembers := alike_present_members ["id", "kind", "issue", "dependencies",
    "conflictDomains", "argv", "runtimeMaxSec"] h (by decide) rfl rfl
  simp only [List.map_cons, List.forall₂_cons, rel_some_iff, alike_natValue_iff, UInt64.toNat_inj,
    alike_string_iff, alike_strings_iff, rel_map_strings_iff, alike_optionStrings_iff,
    alike_optionNat_iff] at hmembers
  obtain ⟨rfl, rfl, rfl, rfl, rfl, rfl, rfl, -⟩ := hmembers
  rfl

/-- The tag tells gates of different kinds apart. -/
theorem CampaignGate.kind_of_alike {a b : List (String × Option Value)} {k l : String}
    (h : Alike (.object (present (("kind", some (.string k)) :: a)))
      (.object (present (("kind", some (.string l)) :: b))))
    (ha : ("kind" :: a.map Prod.fst).Nodup) (hb : ("kind" :: b.map Prod.fst).Nodup) : k = l :=
  alike_string_iff.mp (rel_some_iff.mp
    (alike_present_member h ha hb (List.mem_cons_self ..) (List.mem_cons_self ..)))

theorem CampaignGate.alike_iff {g g' : CampaignGate} : Alike g.toValue g'.toValue ↔ g = g' := by
  refine ⟨fun h => ?_, fun h => h ▸ alike_refl _⟩
  cases g with
  | command id preflightArgv argv runtimeMaxSec =>
    cases g' with
    | command id' preflightArgv' argv' runtimeMaxSec' =>
      have hmembers := alike_present_members
        ["kind", "id", "preflightArgv", "argv", "runtimeMaxSec"] h (by decide) rfl rfl
      simp only [List.map_cons, List.forall₂_cons, rel_some_iff, alike_natValue_iff, UInt64.toNat_inj,
        alike_string_iff, alike_strings_iff] at hmembers
      obtain ⟨-, rfl, rfl, rfl, rfl, -⟩ := hmembers
      rfl
    | forbidPaths => exact absurd (kind_of_alike h (by simp) (by simp)) (by decide)
  | forbidPaths id patterns runtimeMaxSec =>
    cases g' with
    | command => exact absurd (kind_of_alike h (by simp) (by simp)) (by decide)
    | forbidPaths id' patterns' runtimeMaxSec' =>
      have hmembers := alike_present_members
        ["kind", "id", "forbidPaths", "runtimeMaxSec"] h (by decide) rfl rfl
      simp only [List.map_cons, List.forall₂_cons, rel_some_iff, alike_natValue_iff, UInt64.toNat_inj,
        alike_string_iff, alike_strings_iff] at hmembers
      obtain ⟨-, rfl, rfl, rfl, -⟩ := hmembers
      rfl

theorem alike_writerTuple_iff {campaign campaign' : String} {task task' : CampaignTaskReference}
    {content content' : CanonicalCampaignTask} :
    Alike (writerTuple campaign task content) (writerTuple campaign' task' content') ↔
      campaign = campaign' ∧ task = task' ∧ content = content' := by
  refine ⟨fun h => ?_, fun ⟨h, h', h''⟩ => h ▸ h' ▸ h'' ▸ alike_refl _⟩
  have hmembers := alike_present_members ["contractVersion", "campaign", "task", "content"] h
    (by decide) rfl rfl
  simp only [List.map_cons, List.forall₂_cons, rel_some_iff, alike_string_iff,
    CampaignTaskReference.alike_iff, CanonicalCampaignTask.alike_iff] at hmembers
  exact ⟨hmembers.2.1, hmembers.2.2.1, hmembers.2.2.2.1⟩

theorem alike_taskInput_iff {task task' : CampaignTaskReference}
    {content content' : CanonicalCampaignTask} {gates gates' : List CampaignGate} :
    Alike (taskInput task content gates) (taskInput task' content' gates') ↔
      task = task' ∧ content = content' ∧ gates = gates' := by
  refine ⟨fun h => ?_, fun ⟨h, h', h''⟩ => h ▸ h' ▸ h'' ▸ alike_refl _⟩
  have hmembers := alike_present_members ["contractVersion", "task", "content", "gates"] h
    (by decide) rfl rfl
  simp only [List.map_cons, List.forall₂_cons, rel_some_iff, CampaignTaskReference.alike_iff,
    CanonicalCampaignTask.alike_iff, alike_array_map_iff fun _ _ => CampaignGate.alike_iff] at hmembers
  exact ⟨hmembers.2.1, hmembers.2.2.1, hmembers.2.2.2.1⟩

/-! ## The names of members -/

theorem namesUniqueItems_iff {items : List Value} :
    NamesUniqueItems items ↔ ∀ item ∈ items, NamesUnique item := by
  induction items with
  | nil => simp [NamesUniqueItems]
  | cons item items ih => rw [NamesUniqueItems, ih, List.forall_mem_cons]

theorem namesUniqueFields_iff {fields : Fields} :
    NamesUniqueFields fields ↔ ∀ member ∈ fields, NamesUnique member.2 := by
  induction fields with
  | nil => simp [NamesUniqueFields]
  | cons member fields ih =>
    obtain ⟨key, value⟩ := member
    rw [NamesUniqueFields, ih, List.forall_mem_cons]

theorem namesUnique_present {members : List (String × Option Value)}
    (hnodup : (members.map Prod.fst).Nodup)
    (h : ∀ member ∈ members, ∀ value ∈ member.2, NamesUnique value) :
    NamesUnique (.object (present members)) := by
  rw [NamesUnique, namesUniqueFields_iff]
  refine ⟨names_present_nodup hnodup, fun member hmem => ?_⟩
  exact h _ (mem_present.mp hmem) _ rfl

theorem namesUnique_natValue (n : Nat) : NamesUnique (natValue n) := by
  rw [natValue, NamesUnique]
  trivial

theorem namesUnique_strings (values : List String) : NamesUnique (strings values) := by
  rw [strings, NamesUnique, namesUniqueItems_iff]
  intro item hitem
  obtain ⟨text, -, rfl⟩ := List.mem_map.mp hitem
  rw [NamesUnique]
  trivial

theorem namesUnique_nullable {value : Option Value} (h : ∀ v ∈ value, NamesUnique v) :
    NamesUnique (nullable value) := by
  cases value with
  | none =>
    rw [nullable, Option.getD_none, NamesUnique]
    trivial
  | some v => exact h v rfl

theorem CanonicalCampaignTask.namesUnique (content : CanonicalCampaignTask) :
    NamesUnique content.toValue := by
  refine namesUnique_present (by simp) ?_
  simp [NamesUnique, namesUnique_natValue]

theorem CampaignTaskReference.namesUnique (reference : CampaignTaskReference) :
    NamesUnique reference.toValue := by
  have hargv : NamesUnique (nullable (reference.argv.map strings)) :=
    namesUnique_nullable (by simp [namesUnique_strings])
  have hruntime : NamesUnique (nullable (reference.runtimeMaxSec.map (natValue ·.toNat))) :=
    namesUnique_nullable (by simp [namesUnique_natValue])
  refine namesUnique_present (by simp) ?_
  simp [NamesUnique, namesUnique_natValue, namesUnique_strings, hargv, hruntime]

theorem CampaignGate.namesUnique (gate : CampaignGate) : NamesUnique gate.toValue := by
  cases gate <;> refine namesUnique_present (by simp) ?_ <;>
    simp [NamesUnique, namesUnique_natValue, namesUnique_strings]

theorem namesUnique_writerTuple (campaign : String) (task : CampaignTaskReference)
    (content : CanonicalCampaignTask) : NamesUnique (writerTuple campaign task content) := by
  refine namesUnique_present (by simp) ?_
  simp [NamesUnique, namesUnique_natValue, task.namesUnique, content.namesUnique]

theorem namesUnique_taskInput (task : CampaignTaskReference) (content : CanonicalCampaignTask)
    (gates : List CampaignGate) : NamesUnique (taskInput task content gates) := by
  refine namesUnique_present (by simp) ?_
  simp [NamesUnique, namesUniqueItems_iff, namesUnique_natValue, task.namesUnique, content.namesUnique,
    CampaignGate.namesUnique]

/-! ## What the identities cover -/

section

variable [Libraries]

/-- Digests of inputs that do not collide are equal when the values are alike. -/
theorem canonicalDigest_eq_iff {inputs : Set Bytes} (hinjective : Set.InjOn Witness.sha256 inputs)
    {v w : Value} (hv : NamesUnique v) (hvin : hashedText v ∈ inputs) (hwin : hashedText w ∈ inputs) :
    canonicalDigest v = canonicalDigest w ↔ Alike v w := by
  rw [canonicalDigest, canonicalDigest, String.append_right_inj, hinjective.eq_iff hvin hwin, hashedText,
    hashedText, encode_inj]
  exact writeSorted_eq_iff hv

/-- Canonical text is the same exactly for values that differ in the order of members only. It is a JSON
text of the value, up to that order, and that is what is read in it if it is not nested too deeply and the
reader takes numbers and objects for what they are. Where the digest does not collide, a completion is known
by campaign, reference and content, and an input by reference, content and gates. -/
theorem identities_cover_exactly [JsonText] {inputs : Set Bytes}
    (hinjective : Set.InjOn Witness.sha256 inputs) :
    (∀ v w : Value, NamesUnique v → NamesUnique w →
      (canonicalJson v = canonicalJson w ↔ Alike v w)) ∧
    (∀ v : Value, NamesUnique v → Lexical v → ∃ back, Alike v back ∧ IsJsonText (canonicalJson v) back ∧
      (depth v ≤ depthLimit → SortedVerbatim v → JsonText.read (canonicalJson v) = .ok back)) ∧
    ∀ (manifest manifest' : CampaignManifest) (reference reference' : CampaignTaskReference)
      (content content' : CanonicalCampaignTask),
      (hashedText (writerTuple manifest.name reference content) ∈ inputs →
        hashedText (writerTuple manifest'.name reference' content') ∈ inputs →
        (taskCompletionRevision manifest reference content =
            taskCompletionRevision manifest' reference' content' ↔
          manifest.name = manifest'.name ∧ reference = reference' ∧ content = content')) ∧
      (hashedText (taskInput reference content manifest.gates) ∈ inputs →
        hashedText (taskInput reference' content' manifest'.gates) ∈ inputs →
        (taskInputHash manifest reference content = taskInputHash manifest' reference' content' ↔
          reference = reference' ∧ content = content' ∧ manifest.gates = manifest'.gates)) := by
  refine ⟨fun v w hv _ => writeSorted_eq_iff hv, fun v hnames hlexical => ?_, ?_⟩
  · exact ⟨sorted v, alike_sorted v, isJsonText_writeSorted hlexical,
      fun hdepth hverbatim => read_writeSorted hdepth hnames hverbatim⟩
  intro manifest manifest' reference reference' content content'
  refine ⟨fun hin hin' => ?_, fun hin hin' => ?_⟩
  · rw [taskCompletionRevision, taskCompletionRevision,
      canonicalDigest_eq_iff hinjective (namesUnique_writerTuple ..) hin hin']
    exact alike_writerTuple_iff
  · rw [taskInputHash, taskInputHash,
      canonicalDigest_eq_iff hinjective (namesUnique_taskInput ..) hin hin']
    exact alike_taskInput_iff

end

/-! ## Samples -/

namespace Sample

local instance jsonText : JsonText := compactReader

/-- An empty array within arrays. -/
def nested : Nat → Value
  | 0 => .array []
  | n + 1 => .array [nested n]

/-- An object that looks like the number five to the reader. -/
def marked : Value := .object [(numberToken, .string "5")]

theorem depth_nested (n : Nat) : depth (nested n) = n + 1 := by
  induction n with
  | zero => simp [nested, depth, itemsDepth]
  | succ n ih => simp [nested, depth, itemsDepth, ih]

theorem namesUnique_nested (n : Nat) : NamesUnique (nested n) := by
  induction n with
  | zero => simp [nested, NamesUnique, NamesUniqueItems]
  | succ n ih => simp [nested, NamesUnique, NamesUniqueItems, ih]

theorem read_canonicalJson (v : Value) : JsonText.read (canonicalJson v) =
    if depth v ≤ depthLimit then interpret (sorted v) else .error "invalid JSON" := by
  have hblank : [].all isJsonSpace = true := rfl
  have hread := interpretText_render (sorted v) hblank
  rw [List.append_nil, depth_sorted] at hread
  rw [canonicalJson, writeSorted_eq]
  exact hread

/-- The canonical text of 128 nested arrays is refused, and that of a marked object is read as a number. -/
theorem canonical_text_not_read_back :
    (¬ ∀ v : Value, NamesUnique v → SortedVerbatim v → ∃ back,
      JsonText.read (canonicalJson v) = .ok back ∧ Alike v back) ∧
    ¬ ∀ v : Value, NamesUnique v → depth v ≤ depthLimit → ∃ back,
      JsonText.read (canonicalJson v) = .ok back ∧ Alike v back := by
  constructor
  · intro hclaim
    have hverbatim : ∀ n, SortedVerbatim (nested n) := by
      intro n
      induction n with
      | zero => simp [nested, SortedVerbatim, SortedVerbatimItems]
      | succ n ih => simp [nested, SortedVerbatim, SortedVerbatimItems, ih]
    obtain ⟨back, hread, -⟩ := hclaim (nested 127) (namesUnique_nested 127) (hverbatim 127)
    rw [read_canonicalJson, depth_nested, if_neg (by decide)] at hread
    cases hread
  · intro hclaim
    obtain ⟨back, hread, halike⟩ := hclaim marked (by simp [marked, NamesUnique, NamesUniqueFields])
      (by simp [marked, depth, fieldsDepth, depthLimit])
    have hmarked : interpret (sorted marked) = .ok (natValue 5) := rfl
    rw [read_canonicalJson, if_pos (by simp [marked, depth, fieldsDepth, depthLimit]), hmarked] at hread
    cases hread
    cases halike

/-! One edit -/

def content (body : String) : CanonicalCampaignTask where
  number := 1
  title := "t"
  body := body

/-- The input of the hash for a body. -/
def input (body : String) : Bytes := hashedText (writerTuple "demo" (task "a" 1 []) (content body))

/-- SHA-256 of the two inputs. -/
def digest (bytes : Bytes) : String :=
  if bytes = input "b" then "747a6e8934ca6ada1a5ffbeac4191c5c0fc31c73990987cd82e9fc676fbe1159"
  else if bytes = input "c" then "2f52c26a56b0c74e593826ef7c104249786a0f04e3c34fdae3419bb36e21a197"
  else ""

/-- Nothing but the digest is asked for here. -/
local instance libraries : Libraries where
  fromStr text := orError (readCompact 127 text) "not a compact text"
  decodeValue value := .ok value
  sha256 := digest
  decodeContent _ := .error "not a record"
  f64ToValue _ := .null
  isFiniteLexeme _ := true
  legacyF64 n := .ok n
  rfc3339Millis text := some text
  isUuid _ := false

theorem input_ne : input "b" ≠ input "c" := by decide +kernel

theorem digest_injOn : Set.InjOn Witness.sha256 {input "b", input "c"} := by
  refine Set.injOn_pair.mpr fun h => ?_
  have hb : digest (input "b") = _ := if_pos rfl
  have hc : digest (input "c") = _ := (if_neg input_ne.symm).trans (if_pos rfl)
  have heq : digest (input "b") = digest (input "c") := h
  rw [hb, hc] at heq
  exact absurd heq (by decide)

/-- An edit of the body is new work, and the canonical text of a body is read back. -/
theorem identities_cover_exactly_body :
    taskCompletionRevision (manifest [task "a" 1 []]) (task "a" 1 []) (content "b") ≠
        taskCompletionRevision (manifest [task "a" 1 []]) (task "a" 1 []) (content "c") ∧
      ∃ back, Alike (content "b").toValue back ∧
        JsonText.read (canonicalJson (content "b").toValue) = .ok back := by
  obtain ⟨-, hread, hcover⟩ := identities_cover_exactly digest_injOn
  constructor
  · have h := (hcover (manifest [task "a" 1 []]) (manifest [task "a" 1 []]) (task "a" 1 [])
      (task "a" 1 []) (content "b") (content "c")).1 (.inl rfl) (.inr rfl)
    rw [Ne, h]
    decide
  · have hlexical : Lexical (content "b").toValue := by
      simp [CanonicalCampaignTask.toValue, present, content, Lexical, LexicalFields, natValue,
        isJsonNumber_ofNat]
    obtain ⟨back, halike, -, hback⟩ := hread _ (content "b").namesUnique hlexical
    refine ⟨back, halike, hback ?_ ?_⟩
    · simp [CanonicalCampaignTask.toValue, present, content, depth, fieldsDepth, natValue, depthLimit]
    · simp [CanonicalCampaignTask.toValue, present, content, SortedVerbatim, SortedVerbatimFields, natValue,
        isVerbatimNumber_ofNat, numberToken]

end Sample

end Tally.Campaign
