import Mathlib.Data.Finset.Dedup
import Mathlib.Data.String.Basic
import Mathlib.Data.List.Sort
import Tally.Lib.Dict
import Tally.Lib.Digits
import Tally.Lib.Table

/-!
# Drain barriers

The barriers of a drain (`daemon/barriers.rs`): a snapshot of the active jobs, the results that come
in for them, and the callers that wait. A caller waits on a channel for one value; the tracker holds
the sending half and is told by `closed` whether the other half is gone. What is sent is returned
beside the new state.
-/

namespace Tally.Daemon

open Tally.Lib

def unclaimedDrainBarrierLimit : Nat := 64

/-- The sending half of a channel for one value. -/
abbrev Waiter := Nat

abbrev Sends := List (Waiter × Value)

structure BarrierEntry where
  pending : Finset String
  results : Table String Value
  waiters : List Waiter

structure BarrierTracker where
  «namespace» : Nat
  next : Nat
  barriers : Dict String BarrierEntry
  jobWaiters : Dict String (List Waiter)

inductive WaitRegistration
  | ready (value : Value)
  | pending (waiter : Waiter)

def barrierName (space next : Nat) : String :=
  "barrier:drain:" ++ space.repr ++ ":" ++ next.repr

def barrierValue (barrier : String) (results : Table String Value) : Value :=
  .object [("barrier", .string barrier), ("complete", .bool true),
    ("results", .array results.values)]

/-- `rsplit(':').next()`, as a number. -/
def sequenceOf (barrier : String) : Nat :=
  (parseU64 (barrier.toList.reverse.takeWhile (· ≠ ':')).reverse).getD 0

namespace BarrierTracker

def withNamespace (space : Nat) : BarrierTracker := ⟨space, 0, ∅, ∅⟩

def pruneClosedWaiters (closed : Waiter → Bool) (tracker : BarrierTracker) : BarrierTracker :=
  { tracker with
    jobWaiters := (tracker.jobWaiters.mapVals fun _ waiters => waiters.filter (!closed ·)).retain
      fun _ waiters => !waiters.isEmpty
    barriers := tracker.barriers.mapVals fun _ entry =>
      { entry with waiters := entry.waiters.filter (!closed ·) } }

/-- The barriers that nobody waits for, the oldest first. -/
def unclaimed (tracker : BarrierTracker) : List (Nat × String) :=
  ((tracker.barriers.entries.filter fun p => p.2.waiters.isEmpty).map
    fun p => (sequenceOf p.1, p.1)).insertionSort fun a b => a.1 ≤ b.1

def pruneUnclaimedBarriers (tracker : BarrierTracker) : BarrierTracker :=
  let unclaimed := tracker.unclaimed
  let removeCount := unclaimed.length - unclaimedDrainBarrierLimit
  { tracker with
    barriers := (unclaimed.take removeCount).foldl (fun barriers p => barriers.erase p.2)
      tracker.barriers }

def registerJob (closed : Waiter → Bool) (tracker : BarrierTracker) (stableJobKey : String)
    (attempt : Nat) : BarrierTracker × String :=
  (tracker.pruneClosedWaiters closed, "barrier:" ++ stableJobKey ++ ":" ++ attempt.repr)

def snapshot (closed : Waiter → Bool) (tracker : BarrierTracker) (jobs : List String) :
    BarrierTracker × String :=
  let tracker := tracker.pruneClosedWaiters closed
  let next := saturatingAdd tracker.next 1
  let barrier := barrierName tracker.namespace next
  let tracker := { tracker with
    next := next
    barriers := tracker.barriers.insert barrier ⟨jobs.toFinset, ∅, []⟩ }
  (tracker.pruneUnclaimedBarriers, barrier)

end BarrierTracker

/-- The first completion of a pending job. -/
def BarrierEntry.record (job : String) (value : Value) (entry : BarrierEntry) : BarrierEntry :=
  if job ∈ entry.pending then
    { entry with pending := entry.pending.erase job, results := entry.results.insert job value }
  else entry

def BarrierEntry.isComplete (entry : BarrierEntry) : Bool :=
  decide (entry.pending = ∅) && !entry.waiters.isEmpty

/-- Answers the waiters of a complete barrier and forgets it. -/
def settle (state : Dict String BarrierEntry × Sends) (barrier : String) :
    Dict String BarrierEntry × Sends :=
  match state.1.get? barrier with
  | none => state
  | some entry =>
    if entry.waiters.isEmpty then ((state.1.erase barrier).insert barrier entry, state.2)
    else (state.1.erase barrier,
      state.2 ++ entry.waiters.map fun waiter => (waiter, barrierValue barrier entry.results))

def recordAll (job : String) (value : Value) (barriers : Dict String BarrierEntry) :
    Dict String BarrierEntry :=
  barriers.mapVals fun _ entry => entry.record job value

def completed (barriers : Dict String BarrierEntry) : List String :=
  (barriers.entries.filter fun p => p.2.isComplete).map Prod.fst

namespace BarrierTracker

def completeJob (closed : Waiter → Bool) (tracker : BarrierTracker) (stableJobKey : String)
    (value : Value) : BarrierTracker × Sends :=
  let tracker := tracker.pruneClosedWaiters closed
  let jobSends := ((tracker.jobWaiters.get? stableJobKey).getD []).map fun waiter => (waiter, value)
  let barriers := recordAll stableJobKey value tracker.barriers
  let settled := (completed barriers).foldl settle (barriers, [])
  ({ tracker with
      jobWaiters := tracker.jobWaiters.erase stableJobKey
      barriers := settled.1 }.pruneUnclaimedBarriers, jobSends ++ settled.2)

def waitJob (closed : Waiter → Bool) (tracker : BarrierTracker) (stableJobKey : String)
    (waiter : Waiter) : BarrierTracker :=
  let tracker := tracker.pruneClosedWaiters closed
  { tracker with
    jobWaiters := tracker.jobWaiters.insert stableJobKey
      ((tracker.jobWaiters.get? stableJobKey).getD [] ++ [waiter]) }

def waitBarrier (closed : Waiter → Bool) (tracker : BarrierTracker) (barrier : String)
    (waiter : Waiter) : BarrierTracker × Except String WaitRegistration :=
  let tracker := tracker.pruneClosedWaiters closed
  match tracker.barriers.get? barrier with
  | none => (tracker, .error ("unknown barrier " ++ barrier))
  | some entry =>
    if entry.pending = ∅ then
      ({ tracker with barriers := tracker.barriers.erase barrier },
        .ok (.ready (barrierValue barrier entry.results)))
    else
      ({ tracker with
          barriers := tracker.barriers.insert barrier
            { entry with waiters := entry.waiters ++ [waiter] } }, .ok (.pending waiter))

end BarrierTracker

/-! ## Names -/

theorem barrierName_inj {space m n : Nat} : barrierName space m = barrierName space n ↔ m = n := by
  refine ⟨fun h => ?_, fun h => h ▸ rfl⟩
  have hlist := congrArg String.toList h
  simp only [barrierName, String.toList_append, List.append_cancel_left_eq] at hlist
  have hdigits : Nat.toDigits 10 m = Nat.toDigits 10 n := by
    simpa [Nat.repr_eq_ofList_toDigits] using hlist
  rw [← Nat.ofDigitChars_ten_toDigits (n := m), hdigits, Nat.ofDigitChars_ten_toDigits]

/-! ## Pruning -/

section Pruning

variable {closed : Waiter → Bool} {tracker : BarrierTracker} {barrier : String}

theorem get?_pruneClosedWaiters (barrier : String) :
    (tracker.pruneClosedWaiters closed).barriers.get? barrier =
      (tracker.barriers.get? barrier).map fun entry =>
        { entry with waiters := entry.waiters.filter (!closed ·) } :=
  Dict.get?_mapVals ..

theorem jobWaiters_pruneClosedWaiters {job : String} {waiters : List Waiter}
    (h : (tracker.pruneClosedWaiters closed).jobWaiters.get? job = some waiters) :
    ∃ all, tracker.jobWaiters.get? job = some all ∧ waiters = all.filter (!closed ·) := by
  have hmap := ((Dict.get?_retain_eq_some _).mp h).1
  rw [Dict.get?_mapVals] at hmap
  obtain ⟨all, hall, heq⟩ := Option.map_eq_some_iff.mp hmap
  exact ⟨all, hall, heq.symm⟩

theorem get?_foldl_erase (barriers : Dict String BarrierEntry) (names : List (Nat × String))
    (q : String) :
    (names.foldl (fun barriers p => barriers.erase p.2) barriers).get? q =
      if q ∈ names.map Prod.snd then none else barriers.get? q := by
  induction names generalizing barriers with
  | nil => simp
  | cons p names ih =>
    rw [List.foldl_cons, ih, Dict.get?_erase, List.map_cons]
    by_cases hq : q = p.2
    · simp [hq]
    · simp only [hq, if_false, List.mem_cons, false_or]

/-- Nothing is added, and what is dropped has no waiter. -/
theorem get?_pruneUnclaimedBarriers (tracker : BarrierTracker) (barrier : String) :
    tracker.pruneUnclaimedBarriers.barriers.get? barrier = tracker.barriers.get? barrier ∨
      tracker.pruneUnclaimedBarriers.barriers.get? barrier = none ∧
        ∃ entry, tracker.barriers.get? barrier = some entry ∧ entry.waiters = [] := by
  rw [BarrierTracker.pruneUnclaimedBarriers]
  dsimp only
  rw [get?_foldl_erase]
  split
  · next hmem =>
    obtain ⟨p, hp, rfl⟩ := List.mem_map.mp hmem
    have hp := (List.mem_insertionSort _).mp (List.mem_of_mem_take hp)
    obtain ⟨entry, hentry, rfl⟩ := List.mem_map.mp hp
    obtain ⟨hentry, hempty⟩ := List.mem_filter.mp hentry
    exact .inr ⟨rfl, entry.2, (Dict.mem_entries_iff _).mp hentry, List.isEmpty_iff.mp hempty⟩
  · exact .inl rfl

theorem pruneUnclaimedBarriers_of_length_le
    (h : tracker.barriers.entries.length ≤ unclaimedDrainBarrierLimit) :
    tracker.pruneUnclaimedBarriers = tracker := by
  have hlen : tracker.unclaimed.length ≤ tracker.barriers.entries.length := by
    rw [BarrierTracker.unclaimed, List.length_insertionSort, List.length_map]
    exact List.length_filter_le ..
  have hzero : tracker.unclaimed.length - unclaimedDrainBarrierLimit = 0 := by omega
  simp [BarrierTracker.pruneUnclaimedBarriers, hzero]

end Pruning

/-! ## Settling -/

/-- What is sent to a waiter, in order. -/
def answersTo (waiter : Waiter) (sends : Sends) : List Value :=
  (sends.filter fun send => send.1 = waiter).map Prod.snd

theorem answersTo_append (waiter : Waiter) (a b : Sends) :
    answersTo waiter (a ++ b) = answersTo waiter a ++ answersTo waiter b := by
  simp [answersTo]

theorem answersTo_eq_nil_iff {waiter : Waiter} {sends : Sends} :
    answersTo waiter sends = [] ↔ waiter ∉ sends.map Prod.fst := by
  simp only [answersTo, List.map_eq_nil_iff, List.filter_eq_nil_iff, decide_eq_true_eq,
    List.mem_map, not_exists, not_and]

theorem answersTo_map_eq_replicate (waiter : Waiter) (waiters : List Waiter) (value : Value) :
    answersTo waiter (waiters.map fun w => (w, value)) =
      List.replicate (waiters.count waiter) value := by
  induction waiters with
  | nil => rfl
  | cons w waiters ih =>
    rw [answersTo] at ih ⊢
    by_cases hw : w = waiter
    · subst hw
      simp [ih, List.replicate_succ]
    · simp [hw, ih]

theorem get?_settle (state : Dict String BarrierEntry × Sends) (barrier q : String) :
    (settle state barrier).1.get? q =
      if q = barrier ∧ ∃ entry, state.1.get? q = some entry ∧ entry.waiters ≠ [] then none
      else state.1.get? q := by
  unfold settle
  split
  · next hnone =>
    rw [if_neg]
    rintro ⟨rfl, entry, hentry, -⟩
    rw [hnone] at hentry
    cases hentry
  · next entry hentry =>
    split
    · next hempty =>
      have hwaiters := List.isEmpty_iff.mp hempty
      rw [Dict.get?_insert]
      by_cases hq : q = barrier
      · subst hq
        rw [if_pos rfl, if_neg, hentry]
        rintro ⟨-, other, hother, hne⟩
        rw [hentry] at hother
        cases hother
        exact hne hwaiters
      · rw [if_neg hq, if_neg (fun h => hq h.1), Dict.get?_erase_ne _ hq]
    · next hsome =>
      rw [Dict.get?_erase]
      by_cases hq : q = barrier
      · subst hq
        rw [if_pos rfl, if_pos ⟨rfl, entry, hentry, fun hnil => hsome (by simp [hnil])⟩]
      · rw [if_neg hq, if_neg (fun h => hq h.1)]

theorem get?_settled (completed : List String) (state : Dict String BarrierEntry × Sends)
    (q : String) :
    (completed.foldl settle state).1.get? q =
      if q ∈ completed ∧ ∃ entry, state.1.get? q = some entry ∧ entry.waiters ≠ [] then none
      else state.1.get? q := by
  induction completed generalizing state with
  | nil => simp
  | cons barrier completed ih =>
    rw [List.foldl_cons, ih, get?_settle]
    by_cases hq : q = barrier
    · subst hq
      by_cases hsome : ∃ entry, state.1.get? q = some entry ∧ entry.waiters ≠ []
      · simp [hsome]
      · simp [hsome]
    · simp [hq]

/-- The answers to a waiter that waits for no barrier but `name`. -/
theorem answersTo_settled {waiter : Waiter} {name : String} (completed : List String)
    (hnodup : completed.Nodup) (state : Dict String BarrierEntry × Sends)
    (helse : ∀ q entry, state.1.get? q = some entry → q ≠ name → waiter ∉ entry.waiters) :
    answersTo waiter (completed.foldl settle state).2 = answersTo waiter state.2 ++
      match state.1.get? name with
      | some entry =>
        if name ∈ completed then
          List.replicate (entry.waiters.count waiter) (barrierValue name entry.results)
        else []
      | none => [] := by
  induction completed generalizing state with
  | nil => cases hget : state.1.get? name <;> simp
  | cons barrier completed ih =>
    obtain ⟨hfirst, hnodup⟩ := List.nodup_cons.mp hnodup
    have helse' : ∀ q entry, (settle state barrier).1.get? q = some entry → q ≠ name →
        waiter ∉ entry.waiters := by
      intro q entry hentry
      rw [get?_settle] at hentry
      split at hentry
      · cases hentry
      · exact helse q entry hentry
    rw [List.foldl_cons, ih hnodup _ helse', get?_settle]
    by_cases hbarrier : barrier = name
    · subst hbarrier
      rcases hget : state.1.get? barrier with _ | entry
      · simp [settle, hget]
      · by_cases hempty : entry.waiters = []
        · simp [settle, hget, hempty]
        · have hne : ¬ entry.waiters.isEmpty = true := by simpa using hempty
          simp [settle, hget, hempty, answersTo_append, answersTo_map_eq_replicate]
    · have hsends : answersTo waiter (settle state barrier).2 = answersTo waiter state.2 := by
        unfold settle
        split
        · rfl
        · next entry hentry =>
          split
          · rfl
          · have hcount : entry.waiters.count waiter = 0 :=
              List.count_eq_zero.mpr (helse barrier entry hentry hbarrier)
            rw [answersTo_append, answersTo_map_eq_replicate, hcount, List.replicate_zero,
              List.append_nil]
      rw [hsends, if_neg (fun h => hbarrier h.1.symm)]
      rcases state.1.get? name with _ | entry
      · rfl
      · have hmem : name ∈ barrier :: completed ↔ name ∈ completed := by
          simp [Ne.symm hbarrier]
        simp only [hmem]

/-! ## Who waits where -/

/-- How often a waiter waits for a barrier. -/
def waiting (barriers : Dict String BarrierEntry) (waiter : Waiter) (barrier : String) : Nat :=
  (barriers.get? barrier).elim 0 fun entry => entry.waiters.count waiter

def waitingJob (jobWaiters : Dict String (List Waiter)) (waiter : Waiter) (job : String) : Nat :=
  (jobWaiters.get? job).elim 0 fun waiters => waiters.count waiter

section Waiting

variable {closed : Waiter → Bool} {tracker : BarrierTracker} {waiter : Waiter}

theorem waiting_of_get? {barriers : Dict String BarrierEntry} {q : String} {entry : BarrierEntry}
    (h : barriers.get? q = some entry) : waiting barriers waiter q = entry.waiters.count waiter := by
  rw [waiting, h, Option.elim_some]

theorem count_filter_not (waiters : List Waiter) :
    (waiters.filter (!closed ·)).count waiter = if closed waiter then 0 else waiters.count waiter := by
  split
  · next hclosed =>
    rw [List.count_eq_zero, List.mem_filter]
    simp [hclosed]
  · next hclosed => exact List.count_filter (by simpa using hclosed)

theorem waiting_pruneClosedWaiters (q : String) :
    waiting (tracker.pruneClosedWaiters closed).barriers waiter q =
      if closed waiter then 0 else waiting tracker.barriers waiter q := by
  rw [waiting, get?_pruneClosedWaiters, waiting]
  rcases tracker.barriers.get? q with _ | entry
  · simp
  · exact count_filter_not entry.waiters

theorem waitingJob_pruneClosedWaiters_le (job : String) :
    waitingJob (tracker.pruneClosedWaiters closed).jobWaiters waiter job ≤
      waitingJob tracker.jobWaiters waiter job := by
  rcases hjob : (tracker.pruneClosedWaiters closed).jobWaiters.get? job with _ | waiters
  · rw [waitingJob, hjob]
    exact Nat.zero_le _
  · obtain ⟨all, hall, rfl⟩ := jobWaiters_pruneClosedWaiters hjob
    rw [waitingJob, hjob, waitingJob, hall]
    exact List.filter_sublist.count_le _

theorem waiting_pruneUnclaimedBarriers (q : String) :
    waiting tracker.pruneUnclaimedBarriers.barriers waiter q =
      waiting tracker.barriers waiter q := by
  rcases get?_pruneUnclaimedBarriers tracker q with hsame | ⟨hnone, entry, hentry, hempty⟩
  · rw [waiting, hsame, waiting]
  · rw [waiting, hnone, waiting, hentry, Option.elim_some, hempty]
    rfl

theorem waiting_insert (barriers : Dict String BarrierEntry) (barrier : String)
    (entry : BarrierEntry) (q : String) :
    waiting (barriers.insert barrier entry) waiter q =
      if q = barrier then entry.waiters.count waiter else waiting barriers waiter q := by
  rw [waiting, Dict.get?_insert]
  split
  · rfl
  · rfl

theorem waiting_erase (barriers : Dict String BarrierEntry) (barrier q : String) :
    waiting (barriers.erase barrier) waiter q =
      if q = barrier then 0 else waiting barriers waiter q := by
  rw [waiting, Dict.get?_erase]
  split
  · rfl
  · rfl

theorem waitingJob_insert (jobWaiters : Dict String (List Waiter)) (job : String)
    (waiters : List Waiter) (q : String) :
    waitingJob (jobWaiters.insert job waiters) waiter q =
      if q = job then waiters.count waiter else waitingJob jobWaiters waiter q := by
  rw [waitingJob, Dict.get?_insert]
  split
  · rfl
  · rfl

theorem waitingJob_erase_le (jobWaiters : Dict String (List Waiter)) (job q : String) :
    waitingJob (jobWaiters.erase job) waiter q ≤ waitingJob jobWaiters waiter q := by
  rw [waitingJob, Dict.get?_erase]
  split
  · exact Nat.zero_le _
  · exact le_rfl

end Waiting

/-! ## Completion -/

section Completion

variable {job : String} {value : Value}

@[simp] theorem waiters_record (entry : BarrierEntry) :
    (entry.record job value).waiters = entry.waiters := by
  unfold BarrierEntry.record
  split <;> rfl

/-- Whether a completion settles a barrier. -/
def settles (job : String) (value : Value) (barriers : Dict String BarrierEntry) (q : String) :
    Bool :=
  (barriers.get? q).elim false fun entry => (entry.record job value).isComplete

variable {closed : Waiter → Bool} {tracker : BarrierTracker} {barriers : Dict String BarrierEntry}

theorem get?_recordAll (q : String) :
    (recordAll job value barriers).get? q =
      (barriers.get? q).map fun entry => entry.record job value :=
  Dict.get?_mapVals ..

theorem mem_completed_iff {q : String} :
    q ∈ completed barriers ↔ ∃ entry, barriers.get? q = some entry ∧ entry.isComplete = true := by
  rw [completed, List.mem_map]
  constructor
  · rintro ⟨⟨name, entry⟩, hmem, rfl⟩
    obtain ⟨hmem, hcomplete⟩ := List.mem_filter.mp hmem
    exact ⟨entry, (Dict.mem_entries_iff _).mp hmem, hcomplete⟩
  · rintro ⟨entry, hentry, hcomplete⟩
    exact ⟨(q, entry), List.mem_filter.mpr ⟨(Dict.mem_entries_iff _).mpr hentry, hcomplete⟩, rfl⟩

theorem nodup_completed : (completed barriers).Nodup :=
  (Dict.nodup_keys _).sublist (List.filter_sublist.map _)

theorem mem_completed_recordAll {q : String} :
    q ∈ completed (recordAll job value barriers) ↔ settles job value barriers q = true := by
  rw [mem_completed_iff, get?_recordAll, settles]
  rcases barriers.get? q with _ | entry <;> simp

theorem ne_nil_of_isComplete {entry : BarrierEntry} (h : entry.isComplete = true) :
    entry.waiters ≠ [] := by
  simp only [BarrierEntry.isComplete, Bool.and_eq_true] at h
  simpa using h.2

theorem get?_settleCompleted (q : String) :
    ((completed (recordAll job value barriers)).foldl settle
        (recordAll job value barriers, [])).1.get? q =
      if settles job value barriers q then none
      else (barriers.get? q).map fun entry => entry.record job value := by
  rw [get?_settled]
  split
  · next hmem =>
    rw [if_pos (mem_completed_recordAll.mp hmem.1)]
  · next hmem =>
    rw [if_neg, get?_recordAll]
    intro hsettles
    have hcompleted := mem_completed_recordAll.mpr hsettles
    obtain ⟨entry, hentry, hcomplete⟩ := mem_completed_iff.mp hcompleted
    exact hmem ⟨hcompleted, entry, hentry, ne_nil_of_isComplete hcomplete⟩

/-- What is left of an entry. -/
theorem get?_completeJob {q : String} {entry : BarrierEntry}
    (h : (tracker.completeJob closed job value).1.barriers.get? q = some entry) :
    ∃ old, (tracker.pruneClosedWaiters closed).barriers.get? q = some old ∧
      entry = old.record job value ∧ entry.isComplete = false := by
  rw [BarrierTracker.completeJob] at h
  dsimp only at h
  rcases get?_pruneUnclaimedBarriers _ q with hsame | ⟨hnone, -⟩
  · rw [hsame, get?_settleCompleted] at h
    split at h
    · cases h
    · next hsettles =>
      obtain ⟨old, hold, rfl⟩ := Option.map_eq_some_iff.mp h
      refine ⟨old, hold, rfl, ?_⟩
      simpa [settles, hold] using hsettles
  · rw [h] at hnone
    cases hnone

theorem waiting_completeJob (waiter : Waiter) (q : String) :
    waiting (tracker.completeJob closed job value).1.barriers waiter q =
      if settles job value (tracker.pruneClosedWaiters closed).barriers q then 0
      else waiting (tracker.pruneClosedWaiters closed).barriers waiter q := by
  rw [BarrierTracker.completeJob, waiting_pruneUnclaimedBarriers]
  dsimp only
  rw [waiting, get?_settleCompleted]
  split
  · rfl
  · rw [waiting]
    rcases (tracker.pruneClosedWaiters closed).barriers.get? q with _ | entry
    · rfl
    · simp

/-- The answers to a waiter that waits for no job and for no barrier but `name`. -/
theorem answersTo_completeJob {waiter : Waiter} (name : String)
    (hjobs : waitingJob (tracker.pruneClosedWaiters closed).jobWaiters waiter job = 0)
    (helse : ∀ q, q ≠ name → waiting (tracker.pruneClosedWaiters closed).barriers waiter q = 0) :
    answersTo waiter (tracker.completeJob closed job value).2 =
      match (tracker.pruneClosedWaiters closed).barriers.get? name with
      | some entry =>
        if (entry.record job value).isComplete then
          List.replicate (entry.waiters.count waiter)
            (barrierValue name (entry.record job value).results)
        else []
      | none => [] := by
  rw [BarrierTracker.completeJob, answersTo_append]
  generalize tracker.pruneClosedWaiters closed = pruned at *
  have hfirst : ((pruned.jobWaiters.get? job).getD []).count waiter = 0 := by
    rw [← hjobs, waitingJob]
    cases pruned.jobWaiters.get? job <;> rfl
  have helse' : ∀ q entry, (recordAll job value pruned.barriers).get? q = some entry → q ≠ name →
      waiter ∉ entry.waiters := by
    intro q entry hentry hq
    rw [get?_recordAll] at hentry
    obtain ⟨old, hold, rfl⟩ := Option.map_eq_some_iff.mp hentry
    have hcount := helse q hq
    rw [waiting_of_get? hold] at hcount
    simpa using List.count_eq_zero.mp hcount
  rw [answersTo_map_eq_replicate, hfirst, List.replicate_zero, List.nil_append,
    answersTo_settled _ nodup_completed _ helse', get?_recordAll]
  rcases hget : pruned.barriers.get? name with _ | entry
  · rfl
  · have hmem : name ∈ completed (recordAll job value pruned.barriers) ↔
        (entry.record job value).isComplete = true := by
      rw [mem_completed_recordAll, settles, hget, Option.elim_some]
    simp [answersTo, hmem]

end Completion

end Tally.Daemon
