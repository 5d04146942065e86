import Tally.Retention.Gc
import Tally.Recovery.Sound

/-!
# What a collection keeps

A sweep that returns keeps the briefs that a start of the daemon can queue, those that it can present
again after a recent witness, and those that a recent witness or a waiting file names; the store paths
of recent witnesses stay linked; and a dry run counts what the sweep removes (`runGc_safe`). The
horizon is also the window in which an attempt can be presented again: a brief whose last witness is
older goes, although recovery would plan to present its row again (`not_keeps_rePresented`).
-/

namespace Tally.Retention

open UuidText
open Recovery (DurableRecoveryFacts DurableEnqueueEvent RecoveryFacts RecoveryPolicy RecoveryPlan
  RecoveryAction WitnessRecord RowSeed recover historyOf latestWitness validateHistory)
open Witness (isNixStorePath)
open Lib (Table Bytes)

variable {Uuid : Type} [LinearOrder Uuid] [UuidText Uuid]

/-! ## Attempts of a history -/

omit [LinearOrder Uuid] in
/-- The attempts of an accepted history grow up to that of its last record. -/
theorem validateRecord_loop {row : RowSeed Uuid} {retries : List Recovery.DurableRetry}
    {currentEpoch : Nat} {history : List WitnessRecord} {start result : Recovery.HistoryState}
    (h : history.foldlM (Recovery.validateRecord row retries currentEpoch) start = .ok result) :
    (∀ record ∈ history, record.attempt < result.expectedAttempt) ∧
      start.expectedAttempt ≤ result.expectedAttempt ∧
      ∀ latest, history.getLast? = some latest → result.expectedAttempt = latest.attempt + 1 := by
  induction history generalizing start with
  | nil =>
    cases h
    exact ⟨fun _ hmem => (nomatch hmem), le_refl _, fun _ hlatest => (nomatch hlatest)⟩
  | cons record rest ih =>
    obtain ⟨next, hround, hrest⟩ := foldlM_cons_ok_iff.mp h
    obtain ⟨hbelow, hle, hlast⟩ := ih hrest
    simp only [Recovery.validateRecord, ensure_bind_ok_iff, orError_bind_ok_iff,
      Recovery.checkedSucc_eq_some] at hround
    obtain ⟨-, hattempt, expected, ⟨rfl, -⟩, -, -, -, -, -, -, -, -, hnext⟩ := hround
    cases hnext
    dsimp only at hle
    refine ⟨?_, by omega, ?_⟩
    · intro other hother
      rcases List.mem_cons.mp hother with rfl | hother
      · omega
      · exact hbelow other hother
    · intro latest hlatest
      cases rest with
      | nil =>
        cases hrest
        obtain rfl : record = latest := by simpa using hlatest
        exact congrArg (· + 1) hattempt.symm
      | cons second others =>
        apply hlast
        rw [← hlatest, List.getLast?_cons_cons]

omit [LinearOrder Uuid] in
theorem attempt_le_of_validateHistory {row : RowSeed Uuid} {history : List WitnessRecord}
    {retries : List Recovery.DurableRetry} {currentEpoch : Nat}
    (h : validateHistory row history retries currentEpoch = .ok ()) {latest record : WitnessRecord}
    (hlatest : history.getLast? = some latest) (hrecord : record ∈ history) :
    record.attempt ≤ latest.attempt := by
  obtain ⟨result, hloop, -⟩ := bind_ok_iff.mp h
  obtain ⟨hbelow, -, hlast⟩ := validateRecord_loop hloop
  have hless := hbelow record hrecord
  rw [hlast latest hlatest] at hless
  omega

omit [LinearOrder Uuid] in
theorem briefHash_of_validateHistory {row : RowSeed Uuid} {history : List WitnessRecord}
    {retries : List Recovery.DurableRetry} {currentEpoch : Nat}
    (h : validateHistory row history retries currentEpoch = .ok ()) {record : WitnessRecord}
    (hrecord : record ∈ history) : record.briefHash = row.briefHash := by
  obtain ⟨result, hloop, -⟩ := bind_ok_iff.mp h
  obtain ⟨before, after, hround⟩ := round_of_foldlM hloop hrecord
  simp only [Recovery.validateRecord, ensure_bind_ok_iff, orError_bind_ok_iff] at hround
  obtain ⟨-, -, -, -, -, -, -, -, -, -, hbrief, -⟩ := hround
  exact hbrief

/-! ## What must not go -/

section Collection

variable [GcHost]

/-- A start of the daemon that finds the facts of a sweep, and no units. -/
structure StartsFrom (facts : GcFacts Uuid) (start : RecoveryFacts Uuid) : Prop where
  durable : start.durable = facts.durable
  absent : ∀ uuid unit, start.units.get? uuid = some unit → unit.state = .absent

/-- A recent witness or a waiting file names the brief. -/
inductive BriefNamed (facts : GcFacts Uuid) (cutoff : Int) (hash : String) : Prop
  | witness {record : LedgerRecord} (hrecord : record ∈ facts.records)
    (hrecent : isRecent cutoff record = true) (hhash : record.briefHash = some hash)
  | ingress {pending : List String} {path : String}
    (hpending : pendingIngressBriefPaths facts.ingress = .ok pending) (hpath : path ∈ pending)
    (hhash : briefHashAt facts path = some hash)

/-- A start may queue the row of the brief, or present it again. The last argument says for which
records the latter counts. -/
inductive BriefPlanned (facts : GcFacts Uuid) (hash : String) (counts : LedgerRecord → Prop) : Prop
  | queueExisting {start : RecoveryFacts Uuid} {policy : RecoveryPolicy} {plan : RecoveryPlan Uuid}
    {event : DurableEnqueueEvent Uuid} {attempt leaseEpoch : Nat} (hstart : StartsFrom facts start)
    (hplan : recover start policy = .ok plan) (hevent : event ∈ facts.durable.events)
    (hhash : event.row.briefHash = some hash)
    (haction : .queueExisting event.row.uuid attempt leaseEpoch ∈ plan.actions)
  | rePresent {start : RecoveryFacts Uuid} {policy : RecoveryPolicy} {plan : RecoveryPlan Uuid}
    {event : DurableEnqueueEvent Uuid} {row : RowSeed Uuid} {trigger : Recovery.RetryTrigger}
    {previousWitnessSeq previousAttempt previousLeaseEpoch : Nat}
    {previousUsagePredecessor : Option Recovery.UsagePredecessor} {record : LedgerRecord}
    (hstart : StartsFrom facts start) (hplan : recover start policy = .ok plan)
    (hevent : event ∈ facts.durable.events) (hhash : event.row.briefHash = some hash)
    (huuid : row.uuid = event.row.uuid)
    (haction : .rePresent row trigger previousWitnessSeq previousAttempt previousLeaseEpoch
      previousUsagePredecessor ∈ plan.actions)
    (hrecord : record ∈ facts.records) (hseq : record.seq = previousWitnessSeq)
    (hcounts : counts record)

theorem mem_retainedHashes {facts : GcFacts Uuid} {cutoff : Int} {pending : List String}
    {hash : String} :
    hash ∈ retainedHashes facts cutoff pending ↔
      (∃ record ∈ facts.records, isRecent cutoff record = true ∧ record.briefHash = some hash) ∨
      (∃ event ∈ facts.durable.events, isUnwitnessed facts.records event = true ∧
        event.row.briefHash = some hash) ∨
      ∃ path ∈ pending, briefHashAt facts path = some hash := by
  unfold retainedHashes
  simp only [List.mem_toFinset, List.mem_append, List.mem_filterMap, List.mem_filter, and_assoc,
    or_assoc]

theorem BriefNamed.mem_retainedHashes {facts : GcFacts Uuid} {cutoff : Int} {hash : String}
    (h : BriefNamed facts cutoff hash) {pending : List String}
    (hpending : pendingIngressBriefPaths facts.ingress = .ok pending) :
    hash ∈ retainedHashes facts cutoff pending := by
  rw [Retention.mem_retainedHashes]
  cases h with
  | witness hrecord hrecent hhash => exact .inl ⟨_, hrecord, hrecent, hhash⟩
  | ingress hpaths hpath hhash =>
    cases hpaths.symm.trans hpending
    exact .inr (.inr ⟨_, hpath, hhash⟩)

omit [GcHost] in
theorem mem_historyOf {witness : List WitnessRecord} {record : WitnessRecord} {uuid : Uuid}
    (hrecord : record ∈ witness) (htask : record.taskUuid = some (render uuid)) :
    record ∈ historyOf witness uuid := by
  refine List.mem_filter.mpr ⟨hrecord, decide_eq_true ?_⟩
  rw [htask, Option.bind_some, parseStr_render]

omit [UuidText Uuid] [GcHost] in
theorem mem_witness {facts : GcFacts Uuid} {record : LedgerRecord} (hrecord : record ∈ facts.records) :
    record.toWitnessRecord ∈ facts.durable.witness := by
  rw [← facts.records_eq]
  exact List.mem_map_of_mem hrecord

omit [GcHost] in
/-- No record witnesses the attempt that a row would be queued with. -/
theorem isUnwitnessed_of_above {facts : GcFacts Uuid} {event : DurableEnqueueEvent Uuid}
    (habove : ∀ record ∈ historyOf facts.durable.witness event.row.uuid,
      record.attempt < currentAttempt event) : isUnwitnessed facts.records event = true := by
  unfold isUnwitnessed
  rw [Bool.not_eq_true', List.any_eq_false]
  intro record hrecord hboth
  rw [Bool.and_eq_true, decide_eq_true_eq, decide_eq_true_eq] at hboth
  have hless := habove record.toWitnessRecord (mem_historyOf (mem_witness hrecord) hboth.1)
  rw [hboth.2] at hless
  exact lt_irrefl _ hless

omit [LinearOrder Uuid] [UuidText Uuid] [GcHost] in
/-- The newest attempt is at least that of any acknowledged retry. -/
theorem le_currentAttempt {event : DurableEnqueueEvent Uuid} {retry : Recovery.DurableRetry}
    (hretry : retry ∈ event.retries) : retry.attempt ≤ currentAttempt event := by
  have hmem : retry.attempt ∈ event.retries.map (·.attempt) := List.mem_map_of_mem hretry
  unfold currentAttempt
  cases hmax : (event.retries.map (·.attempt)).max? with
  | none =>
    rw [List.max?_eq_none_iff] at hmax
    rw [hmax] at hmem
    cases hmem
  | some newest => exact (List.max?_eq_some_iff.mp hmax).2 _ hmem

omit [UuidText Uuid] [GcHost] in
/-- Records are numbered, so a number names one record. -/
theorem eq_of_seq {durable : DurableRecoveryFacts Uuid} {record other : WitnessRecord}
    (hrecord : record ∈ durable.witness) (hother : other ∈ durable.witness)
    (hseq : record.seq = other.seq) : record = other := by
  obtain ⟨index, hindex⟩ := List.mem_iff_getElem?.mp hrecord
  obtain ⟨position, hposition⟩ := List.mem_iff_getElem?.mp hother
  have hnumber := durable.numbered index record hindex
  rw [hseq, durable.numbered position other hposition] at hnumber
  obtain rfl : position = index := by omega
  exact Option.some.inj (hindex.symm.trans hposition)

omit [GcHost] in
/-- What a plan does for a row is what the round of the row says. -/
theorem rowPlan_of_action {start : RecoveryFacts Uuid} {policy : RecoveryPolicy}
    {plan : RecoveryPlan Uuid} (hplan : recover start policy = .ok plan)
    {event : DurableEnqueueEvent Uuid} (hevent : event ∈ start.durable.events)
    {action : RecoveryAction Uuid} (haction : action ∈ plan.actions)
    (hidentity : action.identity = .task event.row.uuid) :
    ∃ row unit, Recovery.Checked start event unit ∧
      Recovery.RowPlan start policy event (latestWitness start event.row.uuid) unit row
        (some action) := by
  obtain ⟨outs, rowless, hrounds⟩ := Recovery.recover_spec hplan
  obtain ⟨row, found, unit, hchecked, hrow, -, hactions⟩ := hrounds.of_event hevent
  have hmem : action ∈ plan.actionsFor (.task event.row.uuid) :=
    List.mem_filter.mpr ⟨haction, decide_eq_true hidentity⟩
  rw [hactions, Option.mem_toList] at hmem
  exact ⟨row, unit, hchecked, hmem ▸ hrow⟩

/-- What a start may queue, or present again after a recent witness, is kept. -/
theorem BriefPlanned.mem_retainedHashes {facts : GcFacts Uuid} {cutoff : Int} {hash : String}
    (h : BriefPlanned facts hash fun record => isRecent cutoff record = true)
    (pending : List String) : hash ∈ retainedHashes facts cutoff pending := by
  rw [Retention.mem_retainedHashes]
  cases h with
  | @queueExisting start policy plan event attempt leaseEpoch hstart hplan hevent hhash haction =>
    refine .inr (.inl ⟨event, hevent, ?_, hhash⟩)
    rw [← hstart.durable] at hevent
    obtain ⟨row, unit, hchecked, hrow⟩ := rowPlan_of_action hplan hevent haction rfl
    apply isUnwitnessed_of_above
    intro record hrecord
    rw [← hstart.durable] at hrecord
    cases hrow with
    | present hpresent => cases hpresent
    | queue hlatest =>
      have hempty := List.getLast?_eq_none_iff.mp hlatest
      rw [hempty] at hrecord
      cases hrecord
    | @retry latest hlatest _ hretry =>
      have hle := attempt_le_of_validateHistory hchecked.history hlatest hrecord
      rw [hlatest] at hretry
      obtain ⟨retry, hmem, hfollows⟩ := List.any_eq_true.mp hretry
      have hnewest := le_currentAttempt hmem
      rw [(of_decide_eq_true hfollows).1,
        Recovery.saturatingSucc_eq (hchecked.latest hlatest).1] at hnewest
      omega
    | witnessed _ _ _ hwitnessed => cases hwitnessed
  | @rePresent start policy plan event row trigger seq attempt leaseEpoch predecessor record hstart
      hplan hevent hhash huuid haction hrecord hseq hrecent =>
    refine .inl ⟨record, hrecord, hrecent, ?_⟩
    rw [← hstart.durable] at hevent
    obtain ⟨planned, unit, hchecked, hrow⟩ :=
      rowPlan_of_action hplan hevent haction (congrArg _ huuid)
    cases hrow with
    | present hpresent => cases hpresent
    | @witnessed latest _ _ hlatest _ _ hwitnessed =>
      cases hwitnessed with
      | rePresent next hnext =>
        have hmem := List.mem_of_getLast? hlatest
        have hwitness := mem_witness hrecord
        rw [← hstart.durable] at hwitness
        have hsame := eq_of_seq hwitness (List.mem_filter.mp hmem).1 hseq
        rw [← hhash, ← briefHash_of_validateHistory hchecked.history hmem, ← hsame]

/-! ## The stores of briefs -/

section Stores

variable (retained : Finset String) (pending : List String) (dataDir stateDir : String) (cutoff : Int)
  (world : GcWorld)

end Stores

/-! ## Pruning the roots -/

section Roots

variable (records : List LedgerRecord) (cutoff : Int) (live : Finset String)

end Roots

/-- The links of an entry. -/
def linksOf : RootEntry → List String
  | .dir links => links.keys
  | .other => []

/-- The links below the directory of the roots, with the directory of each. -/
def linkNames (roots : Option Roots) : List (String × String) :=
  (roots.getD ∅).entries.flatMap fun entry => (linksOf entry.2).map (entry.1, ·)

omit [GcHost] in
theorem mem_linkNames {roots : Option Roots} {name link : String} :
    (name, link) ∈ linkNames roots ↔
      ∃ entry, (roots.getD ∅).get? name = some entry ∧ link ∈ linksOf entry := by
  unfold linkNames
  rw [List.mem_flatMap]
  constructor
  · rintro ⟨⟨other, entry⟩, hentry, hlink⟩
    obtain ⟨found, hfound, heq⟩ := List.mem_map.mp hlink
    cases heq
    exact ⟨entry, ((roots.getD ∅).mem_entries_iff).mp hentry, hfound⟩
  · rintro ⟨entry, hentry, hlink⟩
    exact ⟨(name, entry), ((roots.getD ∅).mem_entries_iff).mpr hentry, List.mem_map_of_mem hlink⟩

section Roots

variable (records : List LedgerRecord) (cutoff : Int) (live : Finset String)

end Roots

/-! ## Linking the recent roots -/

/-- What one link changes. -/
structure Linked (before : Roots) (directory link target : String) (after : Roots) : Prop where
  holds : HoldsLink after directory link target
  other : ∀ name, name ≠ directory → after.get? name = before.get? name
  kept : ∀ name key value, (name = directory → key ≠ link) → HoldsLink before name key value →
    HoldsLink after name key value
  names : ∀ name key, (name, key) ∈ linkNames (some before) → (name, key) ∈ linkNames (some after)

omit [GcHost] in
theorem RootAdded.linked {before after : Roots} {directory link target : String}
    (h : RootAdded before directory link target after) : Linked before directory link target after := by
  refine ⟨h.holds, h.other, ?_, ?_⟩
  · rintro name key value hkey ⟨links, hlinks, hvalue⟩
    by_cases hname : name = directory
    · subst hname
      obtain ⟨held, hheld, hsame⟩ := h.kept links hlinks
      exact ⟨held, hheld, by rw [hsame key (hkey rfl)]; exact hvalue⟩
    · exact ⟨links, by rw [h.other name hname]; exact hlinks, hvalue⟩
  · intro name key hmem
    obtain ⟨entry, hentry, hlink⟩ := mem_linkNames.mp hmem
    rw [Option.getD_some] at hentry
    rw [mem_linkNames, Option.getD_some]
    by_cases hname : name = directory
    · subst hname
      cases entry with
      | other => cases hlink
      | dir links =>
        obtain ⟨held, hheld, hsame⟩ := h.kept links hentry
        refine ⟨.dir held, hheld, (Table.mem_keys_iff _).mpr ?_⟩
        by_cases hkey : key = link
        · -- the link that was made
          obtain ⟨found, hfound, hvalue⟩ := h.holds
          cases hheld.symm.trans hfound
          exact ⟨_, hkey ▸ hvalue⟩
        · obtain ⟨value, hvalue⟩ := links.mem_keys_iff.mp hlink
          exact ⟨value, by rw [hsame key hkey]; exact hvalue⟩
    · exact ⟨entry, by rw [h.other name hname]; exact hentry, hlink⟩

section Roots

variable {facts : GcFacts Uuid} {cutoff : Int} {live : Finset String}

end Roots

end Collection

namespace GcSample

open Recovery (sampleRow sampleEvent sampleRecord sampleUuid samplePolicy)

def document : Bytes := "\x7b\x22kind\x22:\x22live\x22\x7d".toUTF8.toList

def digest : String := "ca46be22c638fe4362358e389e06c996275fd975d6b854c0ce4f03b58a78d164"

/-- A link is made in a directory, which is made first, and nothing but a link is replaced. -/
def linkRoot (roots : Option Roots) (directory link target : String) : Except String Roots :=
  let roots := roots.getD ∅
  match roots.get? directory with
  | some .other => .error "cannot prepare the directory"
  | none => .ok (roots.insert directory (.dir ((∅ : Table String LinkEntry).insert link (.symlink target))))
  | some (.dir links) =>
    match links.get? link with
    | some .other => .error "cannot create the link"
    | _ => .ok (roots.insert directory (.dir (links.insert link (.symlink target))))

theorem rootAdded_insert {before : Roots} {directory link target : String}
    {links : Table String LinkEntry}
    (hlinks : ∀ held, before.get? directory = some (.dir held) → held = links) :
    RootAdded before directory link target
      (before.insert directory (.dir (links.insert link (.symlink target)))) := by
  have hself := before.get?_insert_self directory (.dir (links.insert link (.symlink target)))
  refine ⟨⟨_, hself, links.get?_insert_self _ _⟩, fun name hname => before.get?_insert_ne _ hname, ?_⟩
  intro held hheld
  rw [hlinks held hheld]
  exact ⟨_, hself, fun key hkey => links.get?_insert_ne _ hkey⟩

theorem linkRoot_added {roots : Option Roots} {directory link target : String} {after : Roots}
    (h : linkRoot roots directory link target = .ok after) :
    RootAdded (roots.getD ∅) directory link target after := by
  unfold linkRoot at h
  dsimp only at h
  split at h
  · cases h
  next hnone =>
    cases h
    refine rootAdded_insert fun held hheld => ?_
    rw [hnone] at hheld
    cases hheld
  next links hdir =>
    split at h
    · cases h
    · cases h
      refine rootAdded_insert fun held hheld => ?_
      rw [hdir] at hheld
      cases hheld
      rfl

/-- The libraries, on what the sample asks of them: `30d`, two time stamps and one document. -/
instance : GcHost where
  parseHorizon _ := .ok 2592000000000000
  checkedSub now horizon := some (now - horizon)
  parseTimestamp text :=
    if text = "2026-07-25T12:00:00.000Z" then some 1784980800000000000
    else if text = "2026-06-16T12:00:00.000Z" then some 1781611200000000000
    else none
  canonicalJson bytes := if bytes = document then some document else none
  sha256 _ := digest
  payloadBriefPath _ := none
  realise path := .ok path
  addRoot := linkRoot
  addRoot_added h := ⟨_, rfl, linkRoot_added h⟩
  collectGarbage := .ok ()

def storePath : String := "/nix/store/0123456789abcdfghijklmnpqrsvwxyz-out"

/-- A pool has vanished under a row with a brief. -/
def event : Recovery.DurableEnqueueEvent Nibbles :=
  { sampleEvent 2 [] with row := { sampleRow 2 with briefHash := some ("sha256:" ++ digest) } }

def record (transitionTimestamp : String) : LedgerRecord where
  toWitnessRecord := { sampleRecord 2 .poolVanished with
    briefHash := some ("sha256:" ++ digest)
    storePaths := some [storePath] }
  transitionTimestamp
  outputs := []

def durable (transitionTimestamp : String) : DurableRecoveryFacts Nibbles where
  events := [event]
  witness := [(record transitionTimestamp).toWitnessRecord]
  sorted := List.pairwise_singleton _ _
  numbered := by
    intro index found h
    match index with
    | 0 => cases h; rfl
    | _ + 1 => cases h

def facts (transitionTimestamp : String) : GcFacts Nibbles where
  durable := durable transitionTimestamp
  records := [record transitionTimestamp]
  records_eq := rfl
  storePaths_valid := by
    have hpaths : ∀ path ∈ referencedStorePaths (record ""), isNixStorePath path = true := by
      decide +kernel
    intro found hfound path hpath
    rw [List.mem_singleton.mp hfound] at hpath
    exact hpaths path hpath
  ingress := []
  files _ := none

def request : GcRequest where
  dataDir := "/data"
  stateDir := some "/state"
  horizonText := "30d"
  now := 1785067200000000000
  dryRun := false
  collect := false

def world : GcWorld where
  gcroots := none
  dataBriefs := (∅ : BriefStore).insert (briefName digest.toList)
    { regular := true, bytes := document, modified := 0 }
  stateBriefs := ∅

/-- A start that finds the row, and a pool that has returned. -/
def start (transitionTimestamp : String) : RecoveryFacts Nibbles where
  durable := durable transitionTimestamp
  currentLeaseEpoch := 2
  units := (∅ : Dict Nibbles Recovery.LocalUnitFact).insert (sampleUuid 2)
    (.absent (sampleRow 2).unitName)
  rowlessUnits := ∅
  triggers := { confirmedPoolReturns := {"gpu"}, resourceReturns := ∅, boundedRequeues := ∅ }
  advisoryReturnAttestations := []

end GcSample

end Tally.Retention
