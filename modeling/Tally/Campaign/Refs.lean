import Tally.Campaign.Contract
import Tally.Campaign.Lease
import Tally.Lib.Table

/-!
# The refs of a campaign

The driver records a finished task by a ref whose name starts with the task (`merge_receipt_reference`
and `checkpoint_ref` of the driver's `actions.rs`), and the lease reads the task back from the name
(`campaign_lease.rs`). An id and a hyphen may be the beginning of another id. A merge receipt is then
read as one of both tasks exactly where the rest of the longer id looks like a revision
(`refs_name_one_task`).
-/

namespace Tally.Campaign

open Tally.Lib

/-! ## What the driver writes -/

def isHexOf (length : Nat) (value : List Char) : Bool :=
  value.length == length && value.all isLowerHexDigit

/-- `sha256:` and 64 lower-case hex digits. -/
def isSha256Identity (value : String) : Bool :=
  value.utf8ByteSize == 71 && "sha256:".toList.isPrefixOf value.toList &&
    (value.toList.drop 7).all isLowerHexDigit

/-- `is_full_oid`. -/
def isFullOid (value : String) : Bool :=
  decide (40 ≤ value.utf8ByteSize) && decide (value.utf8ByteSize ≤ 64) &&
    value.toList.all isLowerHexDigit

/-- `trim_start_matches("sha256:")`. -/
def trimAlgorithm : List Char → List Char
  | 's' :: 'h' :: 'a' :: '2' :: '5' :: '6' :: ':' :: rest => trimAlgorithm rest
  | text => text

/-- `merge_receipt_reference`, below the state prefix of the campaign. -/
def mergeReceiptReference (statePrefix taskId : String) (revision : Option String) : String :=
  let suffix := match revision with
    | none => ""
    | some revision => "-" ++ String.ofList ((trimAlgorithm revision.toList).take 16)
  statePrefix ++ "/merge/" ++ taskId ++ suffix

def checkpointRef (statePrefix taskId sourceSha256 baseRev : String) : Except String String := do
  ensure (isSha256Identity sourceSha256)
    "worklist source digest is not a lowercase SHA-256 identity"
  ensure (isFullOid baseRev) "checkpoint base revision must be a full Git object ID"
  return statePrefix ++ "/checkpoint/" ++ taskId ++ "-" ++
    String.ofList (sourceSha256.toList.drop 7) ++ "/" ++ baseRev

/-- A merge receipt that the driver writes for a task; `task_revision` lets through the revision. -/
def MergeRefOf (statePrefix taskId reference : String) : Prop :=
  ∃ revision : Option String, (∀ text, revision = some text → isSha256Identity text = true) ∧
    reference = mergeReceiptReference statePrefix taskId revision

/-- A checkpoint ref that the driver writes for a task. -/
def CheckpointRefOf (statePrefix taskId reference : String) : Prop :=
  ∃ sourceSha256 baseRev, checkpointRef statePrefix taskId sourceSha256 baseRev = .ok reference

/-! ## What the lease reads -/

def stripPrefix (start text : List Char) : Option (List Char) :=
  if start.isPrefixOf text then some (text.drop start.length) else none

/-- `merge_names_task`. -/
def mergeNamesTask (suffix : List Char) (taskId : String) : Bool :=
  match stripPrefix taskId.toList suffix with
  | none => false
  | some [] => true
  | some rest => (stripPrefix ['-'] rest).any (isHexOf 16)

/-- `checkpoint_names_task`. -/
def checkpointNamesTask (suffix : List Char) (taskId : String) : Bool :=
  match Witness.splitOnce '/' suffix with
  | none => false
  | some (head, revision) =>
    isObjectId (String.ofList revision) &&
      (stripPrefix taskId.toList head).any fun rest => (stripPrefix ['-'] rest).any (isHexOf 64)

structure CampaignLeaseTask where
  id : String
  checkpoint : Bool
  deriving DecidableEq

structure CampaignLeaseFacts where
  statePrefix : String
  tasks : List CampaignLeaseTask
  campaignRefs : Table String String
  publishedHead : String
  liveNodes : Nat

inductive CampaignLeaseDisposition
  | renew (reason : String)
  | lapse (sha : String) (provenBy : PublishProof) (tasks : List String) (reason : String)
  deriving DecidableEq

def mergeNamespace (statePrefix : String) : String := statePrefix ++ "/merge/"

def checkpointNamespace (statePrefix : String) : String := statePrefix ++ "/checkpoint/"

/-- The ref is read as one of the kind of the task, and as naming the task. -/
def namesTask (statePrefix reference : String) (task : CampaignLeaseTask) : Bool :=
  if task.checkpoint = true then
    (stripPrefix (checkpointNamespace statePrefix).toList reference.toList).any
      (checkpointNamesTask · task.id)
  else
    (stripPrefix (mergeNamespace statePrefix).toList reference.toList).any
      (mergeNamesTask · task.id)

/-- `task_is_terminal`. -/
def taskIsTerminal (statePrefix : String) (campaignRefs : Table String String)
    (task : CampaignLeaseTask) : Bool :=
  campaignRefs.keys.any fun reference => namesTask statePrefix reference task

/-- `gate_proof_reference`. -/
def gateProofReference (statePrefix : String) (campaignRefs : Table String String)
    (gateId revision : String) : Option String :=
  (campaignRefs.entries.find? fun entry =>
    entry.2 == revision && proofNamesRevision entry.1 revision &&
      (stripPrefix (checkpointNamespace statePrefix).toList entry.1.toList).any
        (checkpointNamesTask · gateId)).map Prod.fst

def boundedList (values : List String) : String :=
  let head := ", ".intercalate (values.take 5)
  if 5 < values.length then head ++ ", and " ++ toString (values.length - 5) ++ " more" else head

/-- `lease_disposition`. -/
def leaseDisposition (facts : CampaignLeaseFacts) : CampaignLeaseDisposition :=
  if 0 < facts.liveNodes then
    .renew (toString facts.liveNodes ++ " node(s) are still running under this lease")
  else
    let outstanding := (facts.tasks.filter fun task =>
      !taskIsTerminal facts.statePrefix facts.campaignRefs task).map (·.id)
    if outstanding ≠ [] then
      .renew (toString outstanding.length ++ " of " ++ toString facts.tasks.length ++
        " admitted task(s) carry no completion fact: " ++ boundedList outstanding)
    else match facts.tasks.reverse.find? (·.checkpoint) with
      | none => .renew "the admitted graph declares no chapter gate, so no head is proven"
      | some gate =>
        if isObjectId facts.publishedHead = false then
          .renew ("the authority remote reports no publishable base head (" ++
            facts.publishedHead ++ ")")
        else match gateProofReference facts.statePrefix facts.campaignRefs gate.id
            facts.publishedHead with
          | none => .renew ("chapter gate " ++ gate.id ++ " has not proven published head " ++
              facts.publishedHead)
          | some reference => .lapse facts.publishedHead ⟨gate.id, reference⟩
              (facts.tasks.map (·.id))
              ("every admitted task is terminal and chapter gate " ++ gate.id ++
                " proved published head " ++ facts.publishedHead)

/-! ## Names -/

theorem stripPrefix_eq_some {start text rest : List Char} :
    stripPrefix start text = some rest ↔ text = start ++ rest := by
  unfold stripPrefix
  constructor
  · intro h
    split at h
    next hpre =>
      obtain ⟨tail, rfl⟩ := List.isPrefixOf_iff_prefix.mp hpre
      rw [List.drop_left] at h
      cases h
      rfl
    · cases h
  · rintro rfl
    rw [if_pos (List.isPrefixOf_iff_prefix.mpr (List.prefix_append start rest)), List.drop_left]

@[simp] theorem stripPrefix_append (start rest : List Char) :
    stripPrefix start (start ++ rest) = some rest :=
  stripPrefix_eq_some.mpr rfl

theorem stripPrefix_any {start text : List Char} {p : List Char → Bool} :
    (stripPrefix start text).any p = true ↔ ∃ rest, text = start ++ rest ∧ p rest = true := by
  rw [Option.any_eq_true]
  simp only [stripPrefix_eq_some]

theorem isHexOf_iff {n : Nat} {value : List Char} :
    isHexOf n value = true ↔ value.length = n ∧ ∀ c ∈ value, isLowerHexDigit c = true := by
  rw [isHexOf, Bool.and_eq_true, beq_iff_eq, List.all_eq_true]

theorem mergeNamesTask_iff {suffix : List Char} {taskId : String} :
    mergeNamesTask suffix taskId = true ↔ suffix = taskId.toList ∨
      ∃ hex, isHexOf 16 hex = true ∧ suffix = taskId.toList ++ '-' :: hex := by
  unfold mergeNamesTask
  constructor
  · intro h
    split at h
    · cases h
    next hstrip => exact .inl (by simpa using stripPrefix_eq_some.mp hstrip)
    next rest _ hstrip =>
      obtain ⟨hex, hrest, hhex⟩ := stripPrefix_any.mp h
      refine .inr ⟨hex, hhex, ?_⟩
      rw [stripPrefix_eq_some.mp hstrip, hrest]
      rfl
  · rintro (rfl | ⟨hex, hhex, rfl⟩)
    · have : stripPrefix taskId.toList taskId.toList = some [] :=
        stripPrefix_eq_some.mpr (List.append_nil _).symm
      rw [this]
    · rw [stripPrefix_append]
      exact stripPrefix_any.mpr ⟨hex, rfl, hhex⟩

theorem not_mem_of_hex {c : Char} (hc : isLowerHexDigit c = false) {n : Nat} {value : List Char}
    (h : isHexOf n value = true) : c ∉ value := by
  intro hmem
  rw [(isHexOf_iff.mp h).2 c hmem] at hc
  cases hc

/-- A task id has no slash. -/
theorem slash_not_mem_of_safeTaskId {taskId : String} (h : safeTaskId taskId = true) :
    '/' ∉ taskId.toList := by
  intro hmem
  simp only [safeTaskId, Bool.and_eq_true, List.all_eq_true] at h
  exact absurd (h.2 '/' hmem) (by decide)

/-! ## The refs of the driver -/

theorem utf8Size_of_hex {c : Char} (h : isLowerHexDigit c = true) : c.utf8Size = 1 := by
  rw [Char.utf8Size_eq_one_iff]
  simp only [isLowerHexDigit, Char.isDigit, Bool.or_eq_true, Bool.and_eq_true, decide_eq_true_eq] at h
  rcases h with h | h
  · exact UInt32.le_trans h.2 (by decide)
  · exact UInt32.le_trans (Char.le_def.mp h.2) (by decide)

/-- The bytes of a hex text are its digits. -/
theorem utf8ByteSize_of_hex {hex : List Char} (h : ∀ c ∈ hex, isLowerHexDigit c = true) :
    (String.ofList hex).utf8ByteSize = hex.length := by
  induction hex with
  | nil => rfl
  | cons c rest ih =>
    have hcons : String.ofList (c :: rest) = String.singleton c ++ String.ofList rest := by
      rw [← String.toList_inj]
      simp
    rw [hcons, String.utf8ByteSize_append, ih fun d hd => h d (List.mem_cons_of_mem c hd),
      String.utf8ByteSize_singleton, utf8Size_of_hex (h c List.mem_cons_self), List.length_cons,
      Nat.add_comm]

/-- A SHA-256 identity is its algorithm and 64 digits. -/
theorem isSha256Identity_digits {value : String} (h : isSha256Identity value = true) :
    ∃ hex, isHexOf 64 hex = true ∧ value.toList = "sha256:".toList ++ hex := by
  rw [isSha256Identity, Bool.and_eq_true, Bool.and_eq_true, beq_iff_eq] at h
  obtain ⟨⟨hsize, hpre⟩, hdigits⟩ := h
  obtain ⟨hex, hvalue⟩ := List.isPrefixOf_iff_prefix.mp hpre
  have hhex : ∀ c ∈ hex, isLowerHexDigit c = true := by
    rw [← hvalue] at hdigits
    exact List.all_eq_true.mp hdigits
  have htext : value = "sha256:" ++ String.ofList hex := by
    rw [← String.toList_inj, ← hvalue, String.toList_append, @String.toList_ofList hex]
  rw [htext, String.utf8ByteSize_append, utf8ByteSize_of_hex hhex] at hsize
  refine ⟨hex, isHexOf_iff.mpr ⟨?_, hhex⟩, hvalue.symm⟩
  have hseven : "sha256:".utf8ByteSize = 7 := by decide
  omega

theorem trimAlgorithm_hex {hex : List Char} (h : ∀ c ∈ hex, isLowerHexDigit c = true) :
    trimAlgorithm hex = hex := by
  unfold trimAlgorithm
  split
  next rest => exact absurd (h 's' List.mem_cons_self) (by decide)
  · rfl

/-- The name of a merge receipt below its namespace: the task, or the task and 16 digits. -/
def MergeName (taskId : String) (suffix : List Char) : Prop :=
  suffix = taskId.toList ∨ ∃ hex, isHexOf 16 hex = true ∧ suffix = taskId.toList ++ '-' :: hex

theorem MergeRefOf.name {statePrefix taskId reference : String}
    (h : MergeRefOf statePrefix taskId reference) :
    ∃ suffix, MergeName taskId suffix ∧
      reference.toList = (mergeNamespace statePrefix).toList ++ suffix := by
  obtain ⟨revision, hrevision, rfl⟩ := h
  cases revision with
  | none =>
    refine ⟨taskId.toList, .inl rfl, ?_⟩
    simp [mergeReceiptReference, mergeNamespace]
  | some text =>
    obtain ⟨hex, hhex, htext⟩ := isSha256Identity_digits (hrevision text rfl)
    have htrim : trimAlgorithm text.toList = hex := by
      rw [htext]
      exact trimAlgorithm_hex (isHexOf_iff.mp hhex).2
    refine ⟨taskId.toList ++ '-' :: hex.take 16, .inr ⟨hex.take 16, ?_, rfl⟩, ?_⟩
    · rw [isHexOf_iff] at hhex ⊢
      refine ⟨?_, fun c hc => hhex.2 c (List.mem_of_mem_take hc)⟩
      rw [List.length_take, hhex.1]
      rfl
    · simp [mergeReceiptReference, mergeNamespace, htrim]

/-- The bare receipt of a task. -/
theorem mergeRefOf_bare (statePrefix taskId : String) :
    MergeRefOf statePrefix taskId (mergeReceiptReference statePrefix taskId none) :=
  ⟨none, fun _ h => (nomatch h), rfl⟩

/-- The name of a checkpoint ref below its namespace: the task and 64 digits, and a revision. -/
theorem CheckpointRefOf.name {statePrefix taskId reference : String}
    (h : CheckpointRefOf statePrefix taskId reference) :
    ∃ hex revision, isHexOf 64 hex = true ∧ reference.toList =
      (checkpointNamespace statePrefix).toList ++ (taskId.toList ++ '-' :: hex ++ '/' :: revision) := by
  obtain ⟨sourceSha256, baseRev, h⟩ := h
  simp only [checkpointRef, bind_ok_iff, ensure_eq_ok] at h
  obtain ⟨-, hsource, -, hbase, href⟩ := h
  cases href
  obtain ⟨hex, hhex, htext⟩ := isSha256Identity_digits hsource
  have hdrop : sourceSha256.toList.drop 7 = hex := by rw [htext]; rfl
  refine ⟨hex, baseRev.toList, hhex, ?_⟩
  simp [checkpointNamespace, hdrop]

/-! ## One name, one task -/

/-- The longer id is the shorter one, a hyphen and what looks like a revision. -/
def Extends (long short : String) : Prop :=
  ∃ hex, isHexOf 16 hex = true ∧ long.toList = short.toList ++ '-' :: hex

/-- A merge receipt that names two tasks names one task, or one of them extends the other. -/
theorem mergeName_both {a b : String} {suffix : List Char} (ha : MergeName a suffix)
    (hb : MergeName b suffix) : a = b ∨ Extends a b ∨ Extends b a := by
  rcases ha with rfl | ⟨hex, hhex, rfl⟩
  · rcases hb with hb | ⟨hex, hhex, hb⟩
    · exact .inl (String.toList_inj.mp hb)
    · exact .inr (.inl ⟨hex, hhex, hb⟩)
  · rcases hb with hb | ⟨other, hother, hb⟩
    · exact .inr (.inr ⟨hex, hhex, hb.symm⟩)
    · -- the digits are the last sixteen of the name, whichever task it is read for
      have hlength : ('-' :: hex).length = ('-' :: other).length := by
        rw [List.length_cons, List.length_cons, (isHexOf_iff.mp hhex).1, (isHexOf_iff.mp hother).1]
      exact .inl (String.toList_inj.mp (List.append_inj' hb hlength).1)

theorem splitOnce_append {head tail : List Char} (h : '/' ∉ head) :
    Witness.splitOnce '/' (head ++ '/' :: tail) = some (head, tail) := by
  have hhead : ∀ c ∈ head, (decide (c ≠ '/')) = true := by
    intro c hc
    exact decide_eq_true (fun hslash => h (hslash ▸ hc))
  rw [Witness.splitOnce, if_pos (List.mem_append_right _ List.mem_cons_self),
    List.takeWhile_append_of_pos hhead, List.dropWhile_append_of_pos hhead,
    List.takeWhile_cons_of_neg (by simp), List.dropWhile_cons_of_neg (by simp), List.append_nil]
  rfl

/-- A checkpoint ref names no task but its own. -/
theorem checkpointNamesTask_own {a b : String} {hex revision : List Char}
    (ha : safeTaskId a = true) (hhex : isHexOf 64 hex = true)
    (h : checkpointNamesTask (a.toList ++ '-' :: hex ++ '/' :: revision) b = true) : a = b := by
  have hslash : '/' ∉ a.toList ++ '-' :: hex := by
    rw [List.mem_append, List.mem_cons]
    rintro (hmem | hmem | hmem)
    · exact slash_not_mem_of_safeTaskId ha hmem
    · exact absurd hmem (by decide)
    · exact not_mem_of_hex (by decide) hhex hmem
  rw [checkpointNamesTask, splitOnce_append hslash] at h
  obtain ⟨-, h⟩ := Bool.and_eq_true_iff.mp h
  obtain ⟨rest, hrest, h⟩ := stripPrefix_any.mp h
  obtain ⟨other, rfl, hother⟩ := stripPrefix_any.mp h
  have hlength : ('-' :: hex).length = ('-' :: other).length := by
    rw [List.length_cons, List.length_cons, (isHexOf_iff.mp hhex).1, (isHexOf_iff.mp hother).1]
  exact String.toList_inj.mp (List.append_inj' hrest hlength).1

/-- The driver writes the ref for the task. -/
def WrittenFor (statePrefix taskId reference : String) : Prop :=
  MergeRefOf statePrefix taskId reference ∨ CheckpointRefOf statePrefix taskId reference

/-- The ref is read as naming the task, as one that merged or as one that is a checkpoint. -/
def Names (statePrefix reference taskId : String) : Prop :=
  namesTask statePrefix reference ⟨taskId, false⟩ = true ∨
    namesTask statePrefix reference ⟨taskId, true⟩ = true

theorem namespaces_apart {statePrefix : String} {a b : List Char}
    (h : (mergeNamespace statePrefix).toList ++ a = (checkpointNamespace statePrefix).toList ++ b) :
    False := by
  rw [mergeNamespace, checkpointNamespace, String.toList_append, String.toList_append,
    List.append_assoc, List.append_assoc] at h
  exact absurd (List.append_cancel_left h) (by simp)

/-- A ref that is read as a merge receipt of a task is one, of it or of a task whose id extends it or
that it extends. -/
theorem WrittenFor.merged {statePrefix taskId reference : String} {task : CampaignLeaseTask}
    (h : WrittenFor statePrefix taskId reference) (hkind : task.checkpoint = false)
    (hnames : namesTask statePrefix reference task = true) :
    MergeRefOf statePrefix taskId reference ∧
      (taskId = task.id ∨ Extends taskId task.id ∨ Extends task.id taskId) := by
  rw [namesTask, hkind, if_neg Bool.false_ne_true] at hnames
  obtain ⟨read, hread, hnames⟩ := stripPrefix_any.mp hnames
  rcases h with h | h
  · obtain ⟨suffix, hsuffix, href⟩ := h.name
    have hsame : suffix = read := List.append_cancel_left (href.symm.trans hread)
    exact ⟨h, mergeName_both hsuffix (hsame ▸ mergeNamesTask_iff.mp hnames)⟩
  · obtain ⟨hex, revision, -, href⟩ := h.name
    exact (namespaces_apart (hread.symm.trans href)).elim

/-- A ref that is read as a checkpoint of a task is one. -/
theorem WrittenFor.proved {statePrefix taskId reference gateId : String} {read : List Char}
    (h : WrittenFor statePrefix taskId reference) (hsafe : safeTaskId taskId = true)
    (hread : reference.toList = (checkpointNamespace statePrefix).toList ++ read)
    (hnames : checkpointNamesTask read gateId = true) :
    CheckpointRefOf statePrefix gateId reference ∧ taskId = gateId := by
  rcases h with h | h
  · obtain ⟨suffix, -, href⟩ := h.name
    exact (namespaces_apart (href.symm.trans hread)).elim
  · obtain ⟨hex, revision, hhex, href⟩ := h.name
    have hsame := List.append_cancel_left (href.symm.trans hread)
    have hown := checkpointNamesTask_own hsafe hhex (hsame ▸ hnames)
    exact ⟨hown ▸ h, hown⟩

theorem WrittenFor.names {statePrefix taskId reference other : String}
    (h : WrittenFor statePrefix taskId reference) (hsafe : safeTaskId taskId = true)
    (hnames : Names statePrefix reference other) :
    taskId = other ∨ Extends taskId other ∨ Extends other taskId := by
  rcases hnames with hnames | hnames
  · exact (h.merged rfl hnames).2
  · rw [namesTask, if_pos rfl] at hnames
    obtain ⟨read, hread, hnames⟩ := stripPrefix_any.mp hnames
    exact .inl (h.proved hsafe hread hnames).2

/-- The bare receipt of a longer id is read as one of the shorter id. -/
theorem names_of_extends (statePrefix : String) {long short : String} (h : Extends long short) :
    Names statePrefix (mergeReceiptReference statePrefix long none) short := by
  obtain ⟨hex, hhex, hlong⟩ := h
  refine .inl ?_
  rw [namesTask, if_neg Bool.false_ne_true]
  refine stripPrefix_any.mpr ⟨long.toList, ?_, mergeNamesTask_iff.mpr (.inr ⟨hex, hhex, hlong⟩)⟩
  simp [mergeReceiptReference, mergeNamespace]

/-! ## The lease -/

/-- The refs of a campaign below the two namespaces are those that the driver wrote: each write is of
a task and the ref written for it. -/
structure Driven (facts : CampaignLeaseFacts) (written : List (String × String)) : Prop where
  wrote : ∀ write ∈ written, safeTaskId write.1 = true ∧
    WrittenFor facts.statePrefix write.1 write.2
  merges : ∀ reference ∈ facts.campaignRefs.keys, ∀ rest,
    reference.toList = (mergeNamespace facts.statePrefix).toList ++ rest →
      ∃ id, (id, reference) ∈ written
  checkpoints : ∀ reference ∈ facts.campaignRefs.keys, ∀ rest,
    reference.toList = (checkpointNamespace facts.statePrefix).toList ++ rest →
      ∃ id, (id, reference) ∈ written

/-- What a lapse is to rest on: nothing runs, each task has a ref that was written for it, and one that
was written for the last checkpoint points at the published head. -/
structure Finished (facts : CampaignLeaseFacts) (written : List (String × String)) : Prop where
  idle : facts.liveNodes = 0
  completed : ∀ task ∈ facts.tasks, ∃ reference ∈ facts.campaignRefs.keys,
    (task.id, reference) ∈ written ∧
      if task.checkpoint = true then CheckpointRefOf facts.statePrefix task.id reference
      else MergeRefOf facts.statePrefix task.id reference
  proved : ∃ gate reference, facts.tasks.reverse.find? (·.checkpoint) = some gate ∧
    (gate.id, reference) ∈ written ∧ CheckpointRefOf facts.statePrefix gate.id reference ∧
    facts.campaignRefs.get? reference = some facts.publishedHead ∧
    proofNamesRevision reference facts.publishedHead = true

/-- What the lease checks before it lapses. -/
theorem leaseDisposition_lapse {facts : CampaignLeaseFacts} {sha reason : String}
    {provenBy : PublishProof} {tasks : List String}
    (h : leaseDisposition facts = .lapse sha provenBy tasks reason) :
    facts.liveNodes = 0 ∧
      (∀ task ∈ facts.tasks, taskIsTerminal facts.statePrefix facts.campaignRefs task = true) ∧
      ∃ gate reference, facts.tasks.reverse.find? (·.checkpoint) = some gate ∧
        gateProofReference facts.statePrefix facts.campaignRefs gate.id facts.publishedHead =
          some reference := by
  unfold leaseDisposition at h
  split at h
  · cases h
  next hidle =>
    dsimp only at h
    split at h
    · cases h
    next hdone =>
      split at h
      · cases h
      next gate hgate =>
        split at h
        · cases h
        · split at h
          · cases h
          next reference hproof =>
            refine ⟨Nat.eq_zero_of_not_pos hidle, ?_, gate, reference, hgate, hproof⟩
            intro task htask
            rw [ne_eq, Decidable.not_not, List.map_eq_nil_iff, List.filter_eq_nil_iff] at hdone
            simpa using hdone task htask

namespace Driven

variable {facts : CampaignLeaseFacts} {written : List (String × String)}

theorem completed (h : Driven facts written) {task : CampaignLeaseTask}
    (hapart : ∀ write ∈ written, ¬ Extends write.1 task.id ∧ ¬ Extends task.id write.1)
    (hterminal : taskIsTerminal facts.statePrefix facts.campaignRefs task = true) :
    ∃ reference ∈ facts.campaignRefs.keys, (task.id, reference) ∈ written ∧
      if task.checkpoint = true then CheckpointRefOf facts.statePrefix task.id reference
      else MergeRefOf facts.statePrefix task.id reference := by
  obtain ⟨reference, hmem, hnames⟩ := List.any_eq_true.mp hterminal
  refine ⟨reference, hmem, ?_⟩
  cases hkind : task.checkpoint with
  | true =>
    rw [namesTask, if_pos hkind] at hnames
    obtain ⟨read, hread, hnames⟩ := stripPrefix_any.mp hnames
    obtain ⟨id, hid⟩ := h.checkpoints reference hmem read hread
    obtain ⟨hsafe, hwritten⟩ := h.wrote _ hid
    obtain ⟨hown, rfl⟩ := hwritten.proved hsafe hread hnames
    exact ⟨hid, hown⟩
  | false =>
    have hstrip := hnames
    rw [namesTask, hkind, if_neg Bool.false_ne_true] at hstrip
    obtain ⟨read, hread, -⟩ := stripPrefix_any.mp hstrip
    obtain ⟨id, hid⟩ := h.merges reference hmem read hread
    obtain ⟨hmerge, heq | hextends | hextends⟩ := (h.wrote _ hid).2.merged hkind hnames
    · cases heq
      exact ⟨hid, hmerge⟩
    · exact absurd hextends (hapart _ hid).1
    · exact absurd hextends (hapart _ hid).2

theorem proved (h : Driven facts written) {gateId reference : String}
    (hproof : gateProofReference facts.statePrefix facts.campaignRefs gateId facts.publishedHead =
      some reference) :
    (gateId, reference) ∈ written ∧ CheckpointRefOf facts.statePrefix gateId reference ∧
      facts.campaignRefs.get? reference = some facts.publishedHead ∧
      proofNamesRevision reference facts.publishedHead = true := by
  obtain ⟨⟨name, target⟩, hfind, rfl⟩ := Option.map_eq_some_iff.mp hproof
  have hmem := List.mem_of_find?_eq_some hfind
  have hcheck := List.find?_some hfind
  rw [Bool.and_eq_true, Bool.and_eq_true, beq_iff_eq] at hcheck
  obtain ⟨⟨htarget, hnamed⟩, hstrip⟩ := hcheck
  obtain ⟨read, hread, hnames⟩ := stripPrefix_any.mp hstrip
  have hkey : name ∈ facts.campaignRefs.keys := List.mem_map.mpr ⟨_, hmem, rfl⟩
  obtain ⟨id, hid⟩ := h.checkpoints name hkey read hread
  obtain ⟨hsafe, hwritten⟩ := h.wrote _ hid
  obtain ⟨hown, rfl⟩ := hwritten.proved hsafe hread hnames
  refine ⟨hid, hown, ?_, hnamed⟩
  rw [← htarget]
  exact (Table.mem_entries_iff _).mp hmem

end Driven

/-- The refs of two tasks are told apart exactly where neither id extends the other. Where no id that
the driver wrote a ref for extends a task, or is extended by one, the lease lapses only once the
campaign is finished. -/
theorem refs_name_one_task (statePrefix : String) :
    (∀ a b, safeTaskId a = true → safeTaskId b = true → a ≠ b →
      ((∀ reference, (WrittenFor statePrefix a reference → ¬ Names statePrefix reference b) ∧
        (WrittenFor statePrefix b reference → ¬ Names statePrefix reference a)) ↔
        ¬ Extends a b ∧ ¬ Extends b a)) ∧
    ∀ facts written, facts.statePrefix = statePrefix → Driven facts written →
      (∀ task ∈ facts.tasks, ∀ write ∈ written,
        ¬ Extends write.1 task.id ∧ ¬ Extends task.id write.1) →
      ∀ sha provenBy tasks reason,
        leaseDisposition facts = .lapse sha provenBy tasks reason → Finished facts written := by
  constructor
  · intro a b ha hb hne
    constructor
    · intro h
      refine ⟨fun hextends => ?_, fun hextends => ?_⟩
      · exact (h _).1 (.inl (mergeRefOf_bare statePrefix a)) (names_of_extends statePrefix hextends)
      · exact (h _).2 (.inl (mergeRefOf_bare statePrefix b)) (names_of_extends statePrefix hextends)
    · rintro ⟨hab, hba⟩ reference
      constructor
      · intro hwritten hnames
        rcases hwritten.names ha hnames with heq | hextends | hextends
        · exact hne heq
        · exact hab hextends
        · exact hba hextends
      · intro hwritten hnames
        rcases hwritten.names hb hnames with heq | hextends | hextends
        · exact hne heq.symm
        · exact hba hextends
        · exact hab hextends
  · intro facts written _ hdriven hapart sha provenBy tasks reason hlapse
    obtain ⟨hidle, hterminal, gate, reference, hgate, hproof⟩ := leaseDisposition_lapse hlapse
    refine ⟨hidle, ?_, gate, reference, hgate, hdriven.proved hproof⟩
    intro task htask
    exact hdriven.completed (hapart task htask) (hterminal task htask)

namespace RefSample

def digits (c : Char) (n : Nat) : String := String.ofList (List.replicate n c)

def head : String := digits '7' 40

def sourceSha256 : String := "sha256:" ++ digits 'c' 64

def gateRef : String := "refs/checkpoint/gate-" ++ digits 'c' 64 ++ "/" ++ head

/-- The names of the samples, evaluated. -/
theorem evaluated :
    checkpointRef "refs" "gate" sourceSha256 head = .ok gateRef ∧
    (safeTaskId "the" = true ∧ safeTaskId "the-lease" = true ∧ safeTaskId "the-0123456789abcdef" = true ∧
      safeTaskId "gate" = true) ∧
    "refs/merge/the" = mergeReceiptReference "refs" "the" none ∧
    "refs/merge/the-0123456789abcdef" = mergeReceiptReference "refs" "the-0123456789abcdef" none := by
  decide +kernel

theorem safe_the : safeTaskId "the" = true := evaluated.2.1.1

theorem safe_longer : safeTaskId "the-0123456789abcdef" = true := evaluated.2.1.2.2.1

theorem receipt_longer :
    "refs/merge/the-0123456789abcdef" = mergeReceiptReference "refs" "the-0123456789abcdef" none :=
  evaluated.2.2.2

theorem not_extends {a b : String} (h : a.length ≠ b.length + 17) : ¬ Extends a b := by
  rintro ⟨hex, hhex, ha⟩
  apply h
  rw [← String.length_toList, ha, List.length_append, List.length_cons, (isHexOf_iff.mp hhex).1,
    String.length_toList]

/-- A task and a gate, both finished. -/
def done : CampaignLeaseFacts where
  statePrefix := "refs"
  tasks := [⟨"the", false⟩, ⟨"gate", true⟩]
  campaignRefs := ⟨[(gateRef, head), ("refs/merge/the", digits '1' 40)], by decide +kernel⟩
  publishedHead := head
  liveNodes := 0

/-- A campaign with one receipt, that of a task, and the ref of the gate. -/
theorem driven_of_entries {facts : CampaignLeaseFacts} {task receipt target : String}
    (hstate : facts.statePrefix = "refs")
    (hrefs : facts.campaignRefs.entries = [(gateRef, head), (receipt, target)])
    (hsafe : safeTaskId task = true) (hreceipt : receipt = mergeReceiptReference "refs" task none) :
    Driven facts [(task, receipt), ("gate", gateRef)] := by
  have hkeys : ∀ reference ∈ facts.campaignRefs.keys,
      ∃ id, (id, reference) ∈ [(task, receipt), ("gate", gateRef)] := by
    intro reference hmem
    rw [Table.keys, hrefs] at hmem
    rcases List.mem_cons.mp hmem with rfl | hmem
    · exact ⟨"gate", List.mem_cons_of_mem _ List.mem_cons_self⟩
    · rcases List.mem_singleton.mp hmem with rfl
      exact ⟨task, List.mem_cons_self⟩
  refine ⟨?_, fun reference hmem _ _ => hkeys reference hmem, fun reference hmem _ _ =>
    hkeys reference hmem⟩
  intro write hwrite
  rw [hstate]
  rcases List.mem_cons.mp hwrite with rfl | hwrite
  · exact ⟨hsafe, .inl (hreceipt ▸ mergeRefOf_bare "refs" task)⟩
  · rcases List.mem_singleton.mp hwrite with rfl
    obtain ⟨hgate, ⟨-, -, -, hsafe⟩, -⟩ := evaluated
    exact ⟨hsafe, .inr ⟨sourceSha256, head, hgate⟩⟩

theorem driven_done : Driven done [("the", "refs/merge/the"), ("gate", gateRef)] :=
  driven_of_entries rfl rfl safe_the evaluated.2.2.1

theorem lapses_done : leaseDisposition done = .lapse head ⟨"gate", gateRef⟩ ["the", "gate"]
    ("every admitted task is terminal and chapter gate gate proved published head " ++ head) := by
  decide +kernel

theorem refs_name_one_task_apart :
    (∀ reference, WrittenFor "refs" "the" reference → ¬ Names "refs" reference "the-lease") ∧
      Finished done [("the", "refs/merge/the"), ("gate", gateRef)] := by
  have h := refs_name_one_task "refs"
  refine ⟨fun reference hwritten => ?_, ?_⟩
  · have hapart := (h.1 "the" "the-lease" safe_the evaluated.2.1.2.1 (by decide)).mpr
      ⟨not_extends (by decide), not_extends (by decide)⟩
    exact (hapart reference).1 hwritten
  · refine h.2 done _ rfl driven_done ?_ _ _ _ _ lapses_done
    intro task htask write hwrite
    simp only [done, List.mem_cons, List.not_mem_nil, or_false] at htask hwrite
    rcases htask with rfl | rfl <;> rcases hwrite with rfl | rfl
    all_goals exact ⟨not_extends (by decide), not_extends (by decide)⟩

/-- Two tasks, of which the id of one extends that of the other, and a gate. Only the longer one has
merged. -/
def facts : CampaignLeaseFacts where
  statePrefix := "refs"
  tasks := [⟨"the", false⟩, ⟨"the-0123456789abcdef", false⟩, ⟨"gate", true⟩]
  campaignRefs := ⟨[(gateRef, head), ("refs/merge/the-0123456789abcdef", digits '1' 40)], by
    decide +kernel⟩
  publishedHead := head
  liveNodes := 0

def written : List (String × String) :=
  [("the-0123456789abcdef", "refs/merge/the-0123456789abcdef"), ("gate", gateRef)]

theorem driven : Driven facts written :=
  driven_of_entries rfl rfl safe_longer receipt_longer

/-- The receipt of the longer id is read as one of the shorter id, and the lease lapses on it. -/
theorem receipt_names_two_tasks :
    safeTaskId "the" = true ∧ safeTaskId "the-0123456789abcdef" = true ∧
      WrittenFor "refs" "the-0123456789abcdef" "refs/merge/the-0123456789abcdef" ∧
      Names "refs" "refs/merge/the-0123456789abcdef" "the" ∧
      Driven facts written ∧
      (∃ provenBy tasks reason, leaseDisposition facts = .lapse head provenBy tasks reason) ∧
      ¬ Finished facts written := by
  refine ⟨safe_the, safe_longer, .inl ⟨none, fun _ h => (nomatch h), receipt_longer⟩,
    .inl (by decide +kernel), driven, ?_, ?_⟩
  · have hlapse : (match leaseDisposition facts with
      | .renew _ => false
      | .lapse sha .. => sha == head) = true := by decide +kernel
    cases h : leaseDisposition facts with
    | renew reason =>
      rw [h] at hlapse
      cases hlapse
    | lapse sha provenBy tasks reason =>
      rw [h] at hlapse
      rw [beq_iff_eq.mp hlapse]
      exact ⟨provenBy, tasks, reason, rfl⟩
  · intro hfinished
    obtain ⟨reference, -, hwritten, -⟩ := hfinished.completed _ List.mem_cons_self
    simp [written] at hwritten

end RefSample

end Tally.Campaign
