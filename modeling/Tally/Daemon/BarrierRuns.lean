import Tally.Daemon.Barriers

/-!
# Runs of the barrier tracker

The tracker together with the callers: which receiving halves are gone, and which values have
arrived. A barrier is followed from its snapshot on: what is pending and what has come in are
determined by the completions since (`Tracked`), and a caller that waits for it has either not been
answered yet or has one answer, which reports the first completion of every job (`Awaits`).

The number of a snapshot stops at `u64::MAX`, and from then on a snapshot replaces the one before it.
-/

namespace Tally.Daemon

open Tally.Lib

structure World where
  tracker : BarrierTracker
  /-- The waiters whose receiving half is gone. -/
  closed : List Waiter
  /-- The next channel. -/
  fresh : Waiter
  /-- The values that arrived. -/
  answers : Sends

inductive Event
  | registerJob (stableJobKey : String) (attempt : Nat)
  | snapshot (jobs : List String)
  /-- Callers may go away while the job is completed, after the closed ones have been pruned. -/
  | completeJob (stableJobKey : String) (value : Value) (dropped : List Waiter)
  | waitJob (stableJobKey : String)
  | waitBarrier (barrier : String)
  | close (waiter : Waiter)

namespace World

def start (space : Nat) : World := ⟨.withNamespace space, [], 0, []⟩

def isClosed (world : World) (waiter : Waiter) : Bool := decide (waiter ∈ world.closed)

def complete (world : World) (job : String) (value : Value) (dropped : List Waiter) : World :=
  let done := world.tracker.completeJob world.isClosed job value
  let closed := world.closed ++ dropped
  { world with
    tracker := done.1
    closed := closed
    answers := world.answers ++ done.2.filter fun send => send.1 ∉ closed }

/-- The channel goes unused if the barrier is unknown. -/
def await (world : World) (barrier : String) : World :=
  let result := world.tracker.waitBarrier world.isClosed barrier world.fresh
  { world with
    tracker := result.1
    fresh := world.fresh + 1
    answers := world.answers ++
      match result.2 with
      | .ok (.ready value) => [(world.fresh, value)]
      | _ => [] }

def step (world : World) : Event → World
  | .registerJob job attempt =>
    { world with tracker := (world.tracker.registerJob world.isClosed job attempt).1 }
  | .snapshot jobs => { world with tracker := (world.tracker.snapshot world.isClosed jobs).1 }
  | .completeJob job value dropped => world.complete job value dropped
  | .waitJob job =>
    { world with
      tracker := world.tracker.waitJob world.isClosed job world.fresh
      fresh := world.fresh + 1 }
  | .waitBarrier barrier => world.await barrier
  | .close waiter => { world with closed := waiter :: world.closed }

def run (world : World) (events : List Event) : World := events.foldl step world

theorem run_append (world : World) (a b : List Event) :
    world.run (a ++ b) = (world.run a).run b := List.foldl_append ..

theorem run_cons (world : World) (event : Event) (events : List Event) :
    world.run (event :: events) = (world.step event).run events := rfl

end World

/-! ## What has happened -/

def isSnapshot : Event → Bool
  | .snapshot _ => true
  | _ => false

/-- The completions among the events. -/
def completions (events : List Event) : List (String × Value) :=
  events.filterMap fun
    | .completeJob job value _ => some (job, value)
    | _ => none

theorem completions_append (a b : List Event) :
    completions (a ++ b) = completions a ++ completions b := List.filterMap_append ..

/-- The first completion of every job. -/
structure Reports (jobs : Finset String) (since : List (String × Value))
    (results : Table String Value) : Prop where
  complete : ∀ job ∈ jobs, ∃ value, since.lookup job = some value
  first : ∀ job, results.get? job = if job ∈ jobs then since.lookup job else none

/-- The entry of a barrier, after some completions. -/
structure Tracked (jobs : Finset String) (since : List (String × Value)) (entry : BarrierEntry) :
    Prop where
  pending : ∀ job, job ∈ entry.pending ↔ job ∈ jobs ∧ since.lookup job = none
  results : ∀ job, entry.results.get? job = if job ∈ jobs then since.lookup job else none

theorem lookup_append_singleton (since : List (String × Value)) (job key : String) (value : Value) :
    (since ++ [(key, value)]).lookup job =
      (since.lookup job).or (if job = key then some value else none) := by
  rw [List.lookup_append, List.lookup_cons, List.lookup_nil]
  by_cases h : job = key
  · simp [h]
  · have hne : (job == key) = false := beq_eq_false_iff_ne.mpr h
    simp [h, hne]

namespace Tracked

variable {jobs : Finset String} {since : List (String × Value)} {entry : BarrierEntry}

theorem withWaiters (h : Tracked jobs since entry) (waiters : List Waiter) :
    Tracked jobs since { entry with waiters := waiters } := ⟨h.pending, h.results⟩

theorem record (h : Tracked jobs since entry) (key : String) (value : Value) :
    Tracked jobs (since ++ [(key, value)]) (entry.record key value) := by
  unfold BarrierEntry.record
  split
  · next hpending =>
    obtain ⟨hjob, hnone⟩ := (h.pending key).mp hpending
    constructor
    · intro job
      rw [lookup_append_singleton, Finset.mem_erase, h.pending job]
      by_cases hk : job = key
      · subst hk
        simp [hnone]
      · simp [hk]
    · intro job
      rw [lookup_append_singleton, Table.get?_insert, h.results job]
      by_cases hk : job = key
      · subst hk
        simp [hjob, hnone]
      · simp [hk]
  · next hpending =>
    -- the job is not awaited, or has its result already
    have hsame : ∀ job ∈ jobs, (since ++ [(key, value)]).lookup job = since.lookup job := by
      intro job hjob
      rw [lookup_append_singleton]
      by_cases hk : job = key
      · subst hk
        rcases hlookup : since.lookup job with _ | old
        · exact absurd ((h.pending job).mpr ⟨hjob, hlookup⟩) hpending
        · rfl
      · simp [hk]
    constructor
    · intro job
      rw [h.pending job]
      exact and_congr_right fun hjob => by rw [hsame job hjob]
    · intro job
      rw [h.results job]
      split
      · next hjob => rw [hsame job hjob]
      · rfl

theorem reports (h : Tracked jobs since entry) (hempty : entry.pending = ∅) :
    Reports jobs since entry.results := by
  refine ⟨fun job hjob => ?_, h.results⟩
  rcases hlookup : since.lookup job with _ | value
  · have hmem := (h.pending job).mpr ⟨hjob, hlookup⟩
    rw [hempty] at hmem
    exact absurd hmem (Finset.notMem_empty job)
  · exact ⟨value, rfl⟩

theorem mem_pending_or (h : Tracked jobs since entry) (hpending : entry.pending ≠ ∅) :
    ∃ job ∈ jobs, since.lookup job = none := by
  obtain ⟨job, hjob⟩ := Finset.nonempty_iff_ne_empty.mpr hpending
  exact ⟨job, (h.pending job).mp hjob⟩

end Tracked

theorem Reports.append {jobs : Finset String} {since : List (String × Value)}
    {results : Table String Value} (h : Reports jobs since results) (more : List (String × Value)) :
    Reports jobs (since ++ more) results := by
  have hsame : ∀ job ∈ jobs, (since ++ more).lookup job = since.lookup job := by
    intro job hjob
    obtain ⟨value, hvalue⟩ := h.complete job hjob
    rw [List.lookup_append, hvalue, Option.some_or]
  refine ⟨fun job hjob => ?_, fun job => ?_⟩
  · rw [hsame job hjob]
    exact h.complete job hjob
  · rw [h.first job]
    split
    · next hjob => rw [hsame job hjob]
    · rfl

/-! ## Following a barrier -/

/-- A barrier whose snapshot has been followed by some completions. A caller waits for it only while
something is pending. -/
structure Follows (name : String) (jobs : Finset String) (since : List (String × Value))
    (barriers : Dict String BarrierEntry) : Prop where
  tracked : ∀ entry, barriers.get? name = some entry → Tracked jobs since entry
  awaited : ∀ entry, barriers.get? name = some entry → entry.pending = ∅ → entry.waiters = []

namespace Follows

variable {name : String} {jobs : Finset String} {since : List (String × Value)}
  {tracker : BarrierTracker} {closed : Waiter → Bool}

theorem pruneClosedWaiters (h : Follows name jobs since tracker.barriers)
    (closed : Waiter → Bool) :
    Follows name jobs since (tracker.pruneClosedWaiters closed).barriers := by
  constructor
  · intro entry hentry
    rw [get?_pruneClosedWaiters] at hentry
    obtain ⟨old, hold, rfl⟩ := Option.map_eq_some_iff.mp hentry
    exact (h.tracked old hold).withWaiters _
  · intro entry hentry hempty
    rw [get?_pruneClosedWaiters] at hentry
    obtain ⟨old, hold, rfl⟩ := Option.map_eq_some_iff.mp hentry
    simp [h.awaited old hold hempty]

theorem of_get? {barriers barriers' : Dict String BarrierEntry}
    (h : Follows name jobs since barriers)
    (hget : ∀ entry, barriers'.get? name = some entry → barriers.get? name = some entry) :
    Follows name jobs since barriers' :=
  ⟨fun entry hentry => h.tracked entry (hget entry hentry),
    fun entry hentry => h.awaited entry (hget entry hentry)⟩

theorem pruneUnclaimedBarriers (h : Follows name jobs since tracker.barriers) :
    Follows name jobs since tracker.pruneUnclaimedBarriers.barriers := by
  refine h.of_get? fun entry hentry => ?_
  rcases get?_pruneUnclaimedBarriers tracker name with hsame | ⟨hnone, -⟩
  · rwa [hsame] at hentry
  · rw [hnone] at hentry
    cases hentry

/-- The beginning: nothing has come in. -/
theorem snapshot (jobs : List String) :
    Follows (tracker.snapshot closed jobs).2 jobs.toFinset []
      (tracker.snapshot closed jobs).1.barriers := by
  rw [BarrierTracker.snapshot]
  refine pruneUnclaimedBarriers ⟨fun entry hentry => ?_, fun entry hentry _ => ?_⟩
  · rw [Dict.get?_insert_self, Option.some.injEq] at hentry
    subst hentry
    exact ⟨by simp, by simp⟩
  · rw [Dict.get?_insert_self, Option.some.injEq] at hentry
    subst hentry
    rfl

theorem snapshot_other (h : Follows name jobs since tracker.barriers) (others : List String)
    (hname : (tracker.snapshot closed others).2 ≠ name) :
    Follows name jobs since (tracker.snapshot closed others).1.barriers := by
  have hpruned := h.pruneClosedWaiters closed
  rw [BarrierTracker.snapshot] at hname ⊢
  dsimp only at hname ⊢
  refine pruneUnclaimedBarriers (hpruned.of_get? fun entry hentry => ?_)
  rwa [Dict.get?_insert_ne _ _ (Ne.symm hname)] at hentry

theorem completeJob (h : Follows name jobs since tracker.barriers) (job : String) (value : Value) :
    Follows name jobs (since ++ [(job, value)])
      (tracker.completeJob closed job value).1.barriers := by
  have hpruned := h.pruneClosedWaiters closed
  constructor
  · intro entry hentry
    obtain ⟨old, hold, rfl, -⟩ := get?_completeJob hentry
    exact (hpruned.tracked old hold).record job value
  · intro entry hentry hempty
    obtain ⟨old, -, -, hcomplete⟩ := get?_completeJob hentry
    simpa [BarrierEntry.isComplete, hempty] using hcomplete

theorem waitBarrier (h : Follows name jobs since tracker.barriers) (barrier : String)
    (waiter : Waiter) :
    Follows name jobs since (tracker.waitBarrier closed barrier waiter).1.barriers := by
  have hpruned := h.pruneClosedWaiters closed
  rw [BarrierTracker.waitBarrier]
  split
  · exact hpruned
  · next entry hentry =>
    split
    · refine hpruned.of_get? fun other hother => ?_
      rw [Dict.get?_erase] at hother
      split at hother
      · cases hother
      · exact hother
    · next hpending =>
      by_cases hname : name = barrier
      · subst hname
        constructor
        · intro other hother
          rw [Dict.get?_insert_self, Option.some.injEq] at hother
          subst hother
          exact (hpruned.tracked entry hentry).withWaiters _
        · intro other hother hempty
          rw [Dict.get?_insert_self, Option.some.injEq] at hother
          subst hother
          exact absurd hempty hpending
      · refine hpruned.of_get? fun other hother => ?_
        rwa [Dict.get?_insert_ne _ _ hname] at hother

end Follows

/-- A snapshot that takes the name of an earlier one. -/
def Event.Reuses (event : Event) (world : World) (name : String) : Prop :=
  ∃ jobs, event = .snapshot jobs ∧ (world.tracker.snapshot world.isClosed jobs).2 = name

theorem Follows.step {name : String} {jobs : Finset String} {since : List (String × Value)}
    {world : World} (h : Follows name jobs since world.tracker.barriers) (event : Event)
    (hname : ¬ event.Reuses world name) :
    Follows name jobs (since ++ completions [event]) (world.step event).tracker.barriers := by
  cases event with
  | registerJob job attempt =>
    rw [show completions [Event.registerJob job attempt] = [] from rfl, List.append_nil]
    exact h.pruneClosedWaiters _
  | snapshot others =>
    rw [show completions [Event.snapshot others] = [] from rfl, List.append_nil]
    exact h.snapshot_other others fun heq => hname ⟨others, rfl, heq⟩
  | completeJob job value dropped => exact h.completeJob job value
  | waitJob job =>
    rw [show completions [Event.waitJob job] = [] from rfl, List.append_nil]
    exact h.pruneClosedWaiters _
  | waitBarrier barrier =>
    rw [show completions [Event.waitBarrier barrier] = [] from rfl, List.append_nil]
    exact h.waitBarrier barrier _
  | close waiter =>
    rw [show completions [Event.close waiter] = [] from rfl, List.append_nil]
    exact h

/-! ## Channels -/

section Channels

variable {tracker : BarrierTracker} {closed : Waiter → Bool} {waiter : Waiter}

theorem waiting_snapshot (jobs : List String) (q : String) :
    waiting (tracker.snapshot closed jobs).1.barriers waiter q =
      if q = (tracker.snapshot closed jobs).2 then 0
      else if closed waiter then 0 else waiting tracker.barriers waiter q := by
  rw [BarrierTracker.snapshot]
  dsimp only
  rw [waiting_pruneUnclaimedBarriers, waiting_insert, waiting_pruneClosedWaiters]
  rfl

/-- Another caller that waits: only a barrier with nothing pending is taken away. -/
theorem waiting_waitBarrier {other : Waiter} (hne : waiter ≠ other) (barrier q : String) :
    waiting (tracker.waitBarrier closed barrier other).1.barriers waiter q =
        waiting (tracker.pruneClosedWaiters closed).barriers waiter q ∨
      waiting (tracker.waitBarrier closed barrier other).1.barriers waiter q = 0 ∧
        ∃ entry, (tracker.pruneClosedWaiters closed).barriers.get? q = some entry ∧
          entry.pending = ∅ := by
  rw [BarrierTracker.waitBarrier]
  split
  · exact .inl rfl
  · next entry hentry =>
    split
    · next hempty =>
      dsimp only
      rw [waiting_erase]
      split
      · next hq => exact .inr ⟨rfl, entry, hq ▸ hentry, hempty⟩
      · exact .inl rfl
    · refine .inl ?_
      dsimp only
      rw [waiting_insert]
      split
      · next hq =>
        rw [hq, waiting_of_get? hentry, List.count_append, List.count_singleton]
        simp [Ne.symm hne]
      · rfl

theorem jobWaiters_waitBarrier (barrier : String) :
    (tracker.waitBarrier closed barrier waiter).1.jobWaiters =
      (tracker.pruneClosedWaiters closed).jobWaiters := by
  rw [BarrierTracker.waitBarrier]
  split
  · rfl
  · split <;> rfl

theorem waitingJob_waitJob {other : Waiter} (hne : waiter ≠ other) (job q : String) :
    waitingJob (tracker.waitJob closed job other).jobWaiters waiter q ≤
      waitingJob tracker.jobWaiters waiter q := by
  refine le_trans (le_of_eq ?_) (@waitingJob_pruneClosedWaiters_le closed _ _ q)
  rw [BarrierTracker.waitJob]
  dsimp only
  rw [waitingJob_insert]
  split
  · next hq =>
    subst hq
    rw [List.count_append, List.count_singleton, waitingJob]
    rcases (tracker.pruneClosedWaiters closed).jobWaiters.get? q with _ | waiters <;>
      simp [Ne.symm hne]
  · rfl

end Channels

/-- A waiter that is in use nowhere. -/
structure Unused (waiter : Waiter) (world : World) : Prop where
  barriers : ∀ q, waiting world.tracker.barriers waiter q = 0
  jobs : ∀ job, waitingJob world.tracker.jobWaiters waiter job = 0
  answers : answersTo waiter world.answers = []

theorem answersTo_delivered (waiter : Waiter) (sends : Sends) (closed : List Waiter) :
    answersTo waiter (sends.filter fun send => send.1 ∉ closed) =
      if waiter ∈ closed then [] else answersTo waiter sends := by
  simp only [answersTo, List.filter_filter]
  split
  · next hclosed =>
    rw [List.map_eq_nil_iff, List.filter_eq_nil_iff]
    intro send _ hsend
    simp only [Bool.and_eq_true, decide_eq_true_eq] at hsend
    exact hsend.2 (hsend.1 ▸ hclosed)
  · next hclosed =>
    congr 1
    refine List.filter_congr fun send _ => ?_
    by_cases hsend : send.1 = waiter
    · simp [hsend, hclosed]
    · simp [hsend]

theorem Unused.complete {waiter : Waiter} {world : World} (h : Unused waiter world) (job : String)
    (value : Value) (dropped : List Waiter) : Unused waiter (world.complete job value dropped) := by
  have hpruned : ∀ q, waiting (world.tracker.pruneClosedWaiters world.isClosed).barriers waiter q =
      0 := by
    intro q
    rw [waiting_pruneClosedWaiters, h.barriers q, ite_self]
  have hprunedJobs : ∀ job,
      waitingJob (world.tracker.pruneClosedWaiters world.isClosed).jobWaiters waiter job = 0 :=
    fun job => Nat.le_zero.mp (h.jobs job ▸ waitingJob_pruneClosedWaiters_le job)
  refine ⟨fun q => ?_, fun q => ?_, ?_⟩
  · rw [World.complete, waiting_completeJob, hpruned q, ite_self]
  · exact Nat.le_zero.mp (hprunedJobs q ▸ waitingJob_erase_le _ job q)
  · rw [World.complete, answersTo_append, h.answers, answersTo_delivered,
      answersTo_completeJob "" (hprunedJobs job) fun q _ => hpruned q]
    split
    · rfl
    · split
      · next entry hentry =>
        have hcount := hpruned ""
        rw [waiting_of_get? hentry] at hcount
        simp [hcount]
      · rfl

theorem Unused.step {waiter : Waiter} {world : World} (h : Unused waiter world) (event : Event)
    (hfresh : (world.step event).fresh ≤ waiter) : Unused waiter (world.step event) := by
  have hpruned : ∀ q, waiting (world.tracker.pruneClosedWaiters world.isClosed).barriers waiter q =
      0 := by
    intro q
    rw [waiting_pruneClosedWaiters, h.barriers q, ite_self]
  have hprunedJobs : ∀ job,
      waitingJob (world.tracker.pruneClosedWaiters world.isClosed).jobWaiters waiter job = 0 :=
    fun job => Nat.le_zero.mp (h.jobs job ▸ waitingJob_pruneClosedWaiters_le job)
  cases event with
  | registerJob job attempt => exact ⟨hpruned, hprunedJobs, h.answers⟩
  | snapshot jobs =>
    refine ⟨fun q => ?_, hprunedJobs, h.answers⟩
    rw [World.step, waiting_snapshot, h.barriers q, ite_self, ite_self]
  | completeJob job value dropped => exact h.complete job value dropped
  | waitJob job =>
    have hne : waiter ≠ world.fresh := (Nat.lt_of_succ_le hfresh).ne'
    refine ⟨hpruned, fun q => ?_, h.answers⟩
    exact Nat.le_zero.mp (h.jobs q ▸ waitingJob_waitJob hne job q)
  | waitBarrier barrier =>
    have hne : waiter ≠ world.fresh := (Nat.lt_of_succ_le hfresh).ne'
    refine ⟨fun q => ?_, fun q => ?_, ?_⟩
    · rcases waiting_waitBarrier hne barrier q with hsame | ⟨hzero, -⟩
      · exact hsame.trans (hpruned q)
      · exact hzero
    · rw [World.step, World.await, jobWaiters_waitBarrier]
      exact hprunedJobs q
    · rw [World.step, World.await, answersTo_append, h.answers, List.nil_append,
        answersTo_eq_nil_iff]
      split
      · simpa using hne
      · simp
  | close other => exact ⟨h.barriers, h.jobs, h.answers⟩

theorem fresh_le_step (world : World) (event : Event) :
    world.fresh ≤ (world.step event).fresh := by
  cases event with
  | waitBarrier barrier => exact Nat.le_succ _
  | waitJob job => exact Nat.le_succ _
  | registerJob job attempt => exact le_rfl
  | snapshot jobs => exact le_rfl
  | completeJob job value dropped => exact le_rfl
  | close waiter => exact le_rfl

theorem fresh_le_run (world : World) (events : List Event) :
    world.fresh ≤ (world.run events).fresh := by
  induction events generalizing world with
  | nil => exact le_rfl
  | cons event events ih => exact (fresh_le_step world event).trans (ih _)

/-- A channel is not used before it is made. -/
theorem Unused.run {waiter : Waiter} {world : World} (h : Unused waiter world)
    (events : List Event) (hfresh : (world.run events).fresh ≤ waiter) :
    Unused waiter (world.run events) := by
  induction events generalizing world with
  | nil => exact h
  | cons event events ih =>
    rw [World.run_cons] at hfresh ⊢
    exact ih (h.step event ((fresh_le_run _ events).trans hfresh)) hfresh

theorem unused_start (space : Nat) (waiter : Waiter) : Unused waiter (World.start space) :=
  ⟨fun _ => rfl, fun _ => rfl, rfl⟩

/-! ## Waiting for a barrier -/

/-- A caller that waits for the barrier `name`, or has its answer. -/
structure Awaits (name : String) (jobs : Finset String) (since : List (String × Value))
    (waiter : Waiter) (world : World) : Prop where
  old : waiter < world.fresh
  elsewhere : ∀ q, q ≠ name → waiting world.tracker.barriers waiter q = 0
  noJob : ∀ job, waitingJob world.tracker.jobWaiters waiter job = 0
  here :
    (answersTo waiter world.answers = [] ∧ waiting world.tracker.barriers waiter name ≤ 1 ∧
      (waiter ∈ world.closed ∨ waiting world.tracker.barriers waiter name = 1)) ∨
    (waiting world.tracker.barriers waiter name = 0 ∧ ∃ results, Reports jobs since results ∧
      answersTo waiter world.answers = [barrierValue name results])

namespace Awaits

variable {name : String} {jobs : Finset String} {since : List (String × Value)} {waiter : Waiter}
  {world : World}

/-- A step that sends nothing to the caller and takes it out of no list unless it is gone. -/
theorem of_waiting {next : World} (h : Awaits name jobs since waiter world)
    (hfresh : world.fresh ≤ next.fresh) (hclosed : waiter ∈ world.closed → waiter ∈ next.closed)
    (hanswers : answersTo waiter next.answers = answersTo waiter world.answers)
    (hjobs : ∀ job, waitingJob next.tracker.jobWaiters waiter job ≤
      waitingJob world.tracker.jobWaiters waiter job)
    (hwaiting : ∀ q, waiting next.tracker.barriers waiter q =
        waiting world.tracker.barriers waiter q ∨
      waiting next.tracker.barriers waiter q = 0 ∧ waiter ∈ next.closed) :
    Awaits name jobs since waiter next := by
  refine ⟨h.old.trans_le hfresh, fun q hq => ?_, fun job => ?_, ?_⟩
  · rcases hwaiting q with hsame | ⟨hzero, -⟩
    · rw [hsame, h.elsewhere q hq]
    · exact hzero
  · exact Nat.le_zero.mp (h.noJob job ▸ hjobs job)
  · rw [hanswers]
    rcases h.here with ⟨hnone, hone, hwait⟩ | ⟨hzero, hdone⟩
    · refine .inl ⟨hnone, ?_⟩
      rcases hwaiting name with hsame | ⟨hzero, hgone⟩
      · rw [hsame]
        exact ⟨hone, hwait.imp_left hclosed⟩
      · rw [hzero]
        exact ⟨Nat.zero_le _, .inl hgone⟩
    · refine .inr ⟨?_, hdone⟩
      rcases hwaiting name with hsame | ⟨hgone, -⟩
      · rw [hsame, hzero]
      · exact hgone

theorem waiting_pruned (world : World) (q : String) :
    waiting (world.tracker.pruneClosedWaiters world.isClosed).barriers waiter q =
        waiting world.tracker.barriers waiter q ∨
      waiting (world.tracker.pruneClosedWaiters world.isClosed).barriers waiter q = 0 ∧
        waiter ∈ world.closed := by
  rw [waiting_pruneClosedWaiters]
  split
  · next hclosed => exact .inr ⟨rfl, by simpa [World.isClosed] using hclosed⟩
  · exact .inl rfl

/-- What a completion sends to the caller: one report if it settles the barrier, else nothing. -/
theorem answersTo_complete (h : Awaits name jobs since waiter world)
    (hfollows : Follows name jobs since world.tracker.barriers) (job : String) (value : Value) :
    (settles job value (world.tracker.pruneClosedWaiters world.isClosed).barriers name = true ∧
      ∃ results, Reports jobs (since ++ [(job, value)]) results ∧
        answersTo waiter (world.tracker.completeJob world.isClosed job value).2 =
          List.replicate
            (waiting (world.tracker.pruneClosedWaiters world.isClosed).barriers waiter name)
            (barrierValue name results)) ∨
    settles job value (world.tracker.pruneClosedWaiters world.isClosed).barriers name = false ∧
      answersTo waiter (world.tracker.completeJob world.isClosed job value).2 = [] := by
  have hjobs : waitingJob (world.tracker.pruneClosedWaiters world.isClosed).jobWaiters waiter job =
      0 := Nat.le_zero.mp (h.noJob job ▸ waitingJob_pruneClosedWaiters_le job)
  have helse : ∀ q, q ≠ name →
      waiting (world.tracker.pruneClosedWaiters world.isClosed).barriers waiter q = 0 := by
    intro q hq
    rw [waiting_pruneClosedWaiters, h.elsewhere q hq, ite_self]
  have hpruned := hfollows.pruneClosedWaiters world.isClosed
  rw [answersTo_completeJob name hjobs helse, settles]
  rcases hget : (world.tracker.pruneClosedWaiters world.isClosed).barriers.get? name with _ | entry
  · exact .inr ⟨rfl, rfl⟩
  · rw [Option.elim_some, waiting_of_get? hget]
    dsimp only
    split
    · next hcomplete =>
      have hempty : (entry.record job value).pending = ∅ := by
        simp only [BarrierEntry.isComplete, Bool.and_eq_true, decide_eq_true_eq] at hcomplete
        exact hcomplete.1
      exact .inl ⟨hcomplete, _, ((hpruned.tracked entry hget).record job value).reports hempty, rfl⟩
    · next hcomplete => exact .inr ⟨Bool.not_eq_true _ ▸ hcomplete, rfl⟩

theorem complete (h : Awaits name jobs since waiter world)
    (hfollows : Follows name jobs since world.tracker.barriers) (job : String) (value : Value)
    (dropped : List Waiter) :
    Awaits name jobs (since ++ [(job, value)]) waiter (world.complete job value dropped) := by
  have hwaiting := @waiting_completeJob job value world.isClosed world.tracker waiter
  have hpruned := @waiting_pruned waiter world
  refine ⟨h.old, fun q hq => ?_, fun q => ?_, ?_⟩
  · rw [World.complete, hwaiting, waiting_pruneClosedWaiters, h.elsewhere q hq, ite_self, ite_self]
  · have hle := (@waitingJob_erase_le waiter (world.tracker.pruneClosedWaiters
      world.isClosed).jobWaiters job q).trans (waitingJob_pruneClosedWaiters_le q)
    exact Nat.le_zero.mp (h.noJob q ▸ hle)
  · rw [World.complete, hwaiting, answersTo_append, answersTo_delivered]
    rcases h.here with ⟨hnone, hone, hwait⟩ | ⟨hzero, results, hreports, hdone⟩
    · rw [hnone, List.nil_append]
      split
      · next hgone =>
        -- gone before its answer is sent
        refine .inl ⟨rfl, ?_, .inl hgone⟩
        split
        · exact Nat.zero_le _
        · rcases hpruned name with hsame | ⟨hzero, -⟩
          · rwa [hsame]
          · rw [hzero]
            exact Nat.zero_le _
      · next hlive =>
        rw [List.mem_append, not_or] at hlive
        have hcount : waiting (world.tracker.pruneClosedWaiters world.isClosed).barriers waiter
            name = 1 := by
          rcases hpruned name with hsame | ⟨-, hclosed⟩
          · rw [hsame]
            exact hwait.resolve_left hlive.1
          · exact absurd hclosed hlive.1
        rcases h.answersTo_complete hfollows job value with
          ⟨hsettles, results, hreports, hsent⟩ | ⟨hsettles, hsent⟩
        · refine .inr ⟨by rw [hsettles, if_pos rfl], results, hreports, ?_⟩
          rw [hsent, hcount, List.replicate_one]
        · refine .inl ⟨hsent, ?_, .inr ?_⟩
          · rw [hsettles, hcount]
            exact le_rfl
          · rw [hsettles, hcount]
            rfl
    · have hcount : waiting (world.tracker.pruneClosedWaiters world.isClosed).barriers waiter
          name = 0 := by
        rw [waiting_pruneClosedWaiters, hzero, ite_self]
      have hsent : answersTo waiter (world.tracker.completeJob world.isClosed job value).2 = [] := by
        rcases h.answersTo_complete hfollows job value with ⟨-, _, -, hsent⟩ | ⟨-, hsent⟩
        · rw [hsent, hcount, List.replicate_zero]
        · exact hsent
      refine .inr ⟨by rw [hcount, ite_self], results, hreports.append _, ?_⟩
      rw [hdone, hsent, ite_self, List.append_nil]

theorem step (h : Awaits name jobs since waiter world)
    (hfollows : Follows name jobs since world.tracker.barriers) (event : Event)
    (hname : ¬ event.Reuses world name) :
    Awaits name jobs (since ++ completions [event]) waiter (world.step event) := by
  have hpruned := @waiting_pruned waiter world
  have hjobs := @waitingJob_pruneClosedWaiters_le world.isClosed world.tracker waiter
  have hold : waiter ≠ world.fresh := h.old.ne
  cases event with
  | registerJob job attempt =>
    rw [show completions [Event.registerJob job attempt] = [] from rfl, List.append_nil]
    exact h.of_waiting le_rfl id rfl hjobs hpruned
  | snapshot others =>
    rw [show completions [Event.snapshot others] = [] from rfl, List.append_nil]
    refine h.of_waiting le_rfl id rfl hjobs fun q => ?_
    rw [World.step, waiting_snapshot]
    split
    · next hq =>
      have hne : q ≠ name := fun heq => hname ⟨others, rfl, hq.symm.trans heq⟩
      exact .inl (h.elsewhere q hne).symm
    · have := hpruned q
      rwa [waiting_pruneClosedWaiters] at this
  | completeJob job value dropped => exact h.complete hfollows job value dropped
  | waitJob job =>
    rw [show completions [Event.waitJob job] = [] from rfl, List.append_nil]
    exact h.of_waiting (Nat.le_succ _) id rfl (waitingJob_waitJob hold job) hpruned
  | waitBarrier barrier =>
    rw [show completions [Event.waitBarrier barrier] = [] from rfl, List.append_nil]
    refine h.of_waiting (Nat.le_succ _) id ?_ ?_ fun q => ?_
    · rw [World.step, World.await, answersTo_append]
      have hnone : ∀ value, answersTo waiter [(world.fresh, value)] = [] := by
        intro value
        rw [answersTo_eq_nil_iff]
        simpa using hold
      split
      · rw [hnone, List.append_nil]
      · exact List.append_nil _
    · rw [World.step, World.await, jobWaiters_waitBarrier]
      exact hjobs
    · rcases waiting_waitBarrier hold barrier q with hsame | ⟨hzero, entry, hentry, hempty⟩
      · rcases hpruned q with hkept | hgone
        · exact .inl (hsame.trans hkept)
        · exact .inr ⟨hsame.trans hgone.1, hgone.2⟩
      · -- the barrier that is taken away has no caller
        have hcount : waiting (world.tracker.pruneClosedWaiters world.isClosed).barriers waiter q =
            0 := by
          by_cases hq : q = name
          · subst hq
            rw [waiting_of_get? hentry,
              (hfollows.pruneClosedWaiters world.isClosed).awaited entry hentry hempty]
            rfl
          · rw [waiting_pruneClosedWaiters, h.elsewhere q hq, ite_self]
        rcases hpruned q with hkept | hgone
        · exact .inl (hzero.trans (hcount.symm.trans hkept))
        · exact .inr ⟨hzero, hgone.2⟩
  | close other =>
    rw [show completions [Event.close other] = [] from rfl, List.append_nil]
    exact h.of_waiting le_rfl (List.mem_cons_of_mem _) rfl (fun _ => le_rfl) fun _ => .inl rfl

end Awaits

/-- A caller that asks for a barrier is told to wait, or is answered at once. -/
theorem awaits_await {name : String} {jobs : Finset String} {since : List (String × Value)}
    {world : World} (hunused : Unused world.fresh world)
    (hfollows : Follows name jobs since world.tracker.barriers)
    (htracked : (world.tracker.barriers.get? name).isSome) :
    Awaits name jobs since world.fresh (world.await name) := by
  have hpruned : ∀ q, waiting (world.tracker.pruneClosedWaiters world.isClosed).barriers world.fresh
      q = 0 := by
    intro q
    rw [waiting_pruneClosedWaiters, hunused.barriers q, ite_self]
  have hfollows := hfollows.pruneClosedWaiters world.isClosed
  have hnoJob : ∀ job, waitingJob (world.await name).tracker.jobWaiters world.fresh job = 0 := by
    intro job
    rw [World.await, jobWaiters_waitBarrier]
    exact Nat.le_zero.mp (hunused.jobs job ▸ waitingJob_pruneClosedWaiters_le job)
  obtain ⟨old, hold⟩ := Option.isSome_iff_exists.mp htracked
  have hentry := @get?_pruneClosedWaiters world.isClosed world.tracker name
  rw [hold, Option.map_some] at hentry
  generalize hkept : ({ old with waiters := _ } : BarrierEntry) = entry at hentry
  have hcount := hpruned name
  rw [waiting_of_get? hentry] at hcount
  by_cases hempty : entry.pending = ∅
  · have hresult : world.tracker.waitBarrier world.isClosed name world.fresh =
        ({ world.tracker.pruneClosedWaiters world.isClosed with
            barriers := (world.tracker.pruneClosedWaiters world.isClosed).barriers.erase name },
          .ok (.ready (barrierValue name entry.results))) := by
      rw [BarrierTracker.waitBarrier]
      simp only [hentry, if_pos hempty]
    refine ⟨Nat.lt_succ_self _, fun q hq => ?_, hnoJob, .inr ⟨?_, entry.results, ?_, ?_⟩⟩
    · rw [World.await, hresult, waiting_erase, if_neg hq, hpruned q]
    · rw [World.await, hresult, waiting_erase, if_pos rfl]
    · exact (hfollows.tracked entry hentry).reports hempty
    · rw [World.await, hresult, answersTo_append, hunused.answers]
      simp [answersTo]
  · have hresult : world.tracker.waitBarrier world.isClosed name world.fresh =
        ({ world.tracker.pruneClosedWaiters world.isClosed with
            barriers := (world.tracker.pruneClosedWaiters world.isClosed).barriers.insert name
              { entry with waiters := entry.waiters ++ [world.fresh] } },
          .ok (.pending world.fresh)) := by
      rw [BarrierTracker.waitBarrier]
      simp only [hentry, if_neg hempty]
    have hone : (entry.waiters ++ [world.fresh]).count world.fresh = 1 := by
      rw [List.count_append, hcount, List.count_singleton_self]
    refine ⟨Nat.lt_succ_self _, fun q hq => ?_, hnoJob, .inl ⟨?_, ?_, .inr ?_⟩⟩
    · rw [World.await, hresult, waiting_insert, if_neg hq, hpruned q]
    · rw [World.await, hresult, List.append_nil, hunused.answers]
    · rw [World.await, hresult, waiting_insert, if_pos rfl, hone]
    · rw [World.await, hresult, waiting_insert, if_pos rfl, hone]

/-! ## Numbers of snapshots -/

theorem next_step (world : World) (event : Event) :
    (world.step event).tracker.next =
        (if isSnapshot event then saturatingAdd world.tracker.next 1 else world.tracker.next) ∧
      (world.step event).tracker.namespace = world.tracker.namespace := by
  cases event with
  | waitBarrier barrier =>
    rw [World.step, World.await, BarrierTracker.waitBarrier]
    dsimp only
    split
    · exact ⟨rfl, rfl⟩
    · split <;> exact ⟨rfl, rfl⟩
  | waitJob job => exact ⟨rfl, rfl⟩
  | registerJob job attempt => exact ⟨rfl, rfl⟩
  | snapshot jobs => exact ⟨rfl, rfl⟩
  | completeJob job value dropped => exact ⟨rfl, rfl⟩
  | close waiter => exact ⟨rfl, rfl⟩

theorem next_run (world : World) (events : List Event)
    (h : world.tracker.next + events.countP isSnapshot ≤ u64Max) :
    (world.run events).tracker.next = world.tracker.next + events.countP isSnapshot ∧
      (world.run events).tracker.namespace = world.tracker.namespace := by
  induction events generalizing world with
  | nil => exact ⟨rfl, rfl⟩
  | cons event events ih =>
    obtain ⟨hnext, hspace⟩ := next_step world event
    rw [List.countP_cons] at h ⊢
    rw [World.run_cons]
    split at hnext
    · next hsnapshot =>
      rw [if_pos hsnapshot] at h ⊢
      have hsum : saturatingAdd world.tracker.next 1 = world.tracker.next + 1 := by
        rw [saturatingAdd, usizeMax, Nat.min_eq_left (by omega)]
      rw [hsum] at hnext
      obtain ⟨hrun, hspaces⟩ := ih (world.step event) (by omega)
      exact ⟨by omega, hspaces.trans hspace⟩
    · next hother =>
      rw [if_neg hother] at h ⊢
      obtain ⟨hrun, hspaces⟩ := ih (world.step event) (by omega)
      exact ⟨by omega, hspaces.trans hspace⟩

/-- The name has been given out. -/
def Given (name : String) (world : World) : Prop :=
  ∃ n ≤ world.tracker.next, name = barrierName world.tracker.namespace n

theorem snapshot_name (tracker : BarrierTracker) (closed : Waiter → Bool) (jobs : List String) :
    (tracker.snapshot closed jobs).2 =
      barrierName tracker.namespace (saturatingAdd tracker.next 1) := rfl

theorem Given.not_reuses {name : String} {world : World} (h : Given name world) {event : Event}
    (hnext : world.tracker.next + [event].countP isSnapshot ≤ u64Max) :
    ¬ event.Reuses world name := by
  rintro ⟨jobs, rfl, hreused⟩
  obtain ⟨n, hn, rfl⟩ := h
  have hlt : world.tracker.next + 1 ≤ u64Max := hnext
  rw [snapshot_name, barrierName_inj, saturatingAdd, usizeMax, Nat.min_eq_left hlt] at hreused
  omega

theorem Given.run {name : String} {world : World} (h : Given name world) {events : List Event}
    (hnext : world.tracker.next + events.countP isSnapshot ≤ u64Max) :
    Given name (world.run events) := by
  obtain ⟨n, hn, rfl⟩ := h
  obtain ⟨hrun, hspace⟩ := next_run world events hnext
  exact ⟨n, hn.trans (hrun ▸ Nat.le_add_right _ _), by rw [hspace]⟩

/-- What a step keeps that does not give out the name again, a run keeps. -/
theorem run_keeps {name : String} (P : World → List (String × Value) → Prop)
    (hstep : ∀ world since event, P world since → ¬ event.Reuses world name →
      P (world.step event) (since ++ completions [event]))
    {world : World} {since : List (String × Value)} (events : List Event) (h : P world since)
    (hgiven : Given name world)
    (hcount : world.tracker.next + events.countP isSnapshot ≤ u64Max) :
    P (world.run events) (since ++ completions events) := by
  induction events generalizing world since with
  | nil => simpa [completions, World.run] using h
  | cons event events ih =>
    have hsum : (event :: events).countP isSnapshot =
        [event].countP isSnapshot + events.countP isSnapshot := by
      rw [← List.countP_append]
      rfl
    have hfirst : world.tracker.next + [event].countP isSnapshot ≤ u64Max := by omega
    have hnext : (world.step event).tracker.next =
        world.tracker.next + [event].countP isSnapshot := (next_run world [event] hfirst).1
    have hrest := ih (hstep world since event h (hgiven.not_reuses hfirst)) (hgiven.run hfirst)
      (by omega)
    rwa [List.append_assoc, ← completions_append] at hrest

/-! ## Reports -/

section Reports

variable (space : Nat) (before : List Event) (jobs : List String)

/-- The name of the barrier that the snapshot after `before` returns. -/
def barrierOf : String :=
  (((World.start space).run before).tracker.snapshot ((World.start space).run before).isClosed jobs).2

/-- The run up to the snapshot and with it, and then `after`. -/
def worldAfter (after : List Event) : World :=
  (World.start space).run (before ++ .snapshot jobs :: after)

/-- What a barrier and its callers are owed, whatever happens `after` the snapshot. -/
structure BarrierReports (after : List Event) : Prop where
  partition : ∀ entry,
    (worldAfter space before jobs after).tracker.barriers.get? (barrierOf space before jobs) =
      some entry →
    Disjoint entry.pending entry.results.keys.toFinset ∧
      entry.pending ∪ entry.results.keys.toFinset = jobs.toFinset ∧
      ∀ job value, entry.results.get? job = some value →
        (completions after).lookup job = some value
  /-- A caller has no answer, or one report; it is not left waiting when all jobs are complete. -/
  answered : ∀ middle rest, after = middle ++ .waitBarrier (barrierOf space before jobs) :: rest →
    ((worldAfter space before jobs middle).tracker.barriers.get?
      (barrierOf space before jobs)).isSome →
    (answersTo (worldAfter space before jobs middle).fresh
        (worldAfter space before jobs after).answers = [] ∨
      ∃ results, Reports jobs.toFinset (completions after) results ∧
        answersTo (worldAfter space before jobs middle).fresh
          (worldAfter space before jobs after).answers =
            [barrierValue (barrierOf space before jobs) results]) ∧
    ((worldAfter space before jobs middle).fresh ∉ (worldAfter space before jobs after).closed →
      (∀ job ∈ jobs, ∃ value, (completions after).lookup job = some value) →
      answersTo (worldAfter space before jobs middle).fresh
        (worldAfter space before jobs after).answers ≠ [])
  /-- Pruning keeps every barrier with a live caller. -/
  kept : ∀ barrier entry waiter,
    (worldAfter space before jobs after).tracker.barriers.get? barrier = some entry →
    waiter ∈ entry.waiters → waiter ∉ (worldAfter space before jobs after).closed →
    (∃ entry', ((worldAfter space before jobs after).tracker.pruneClosedWaiters
      (worldAfter space before jobs after).isClosed).barriers.get? barrier = some entry' ∧
        waiter ∈ entry'.waiters) ∧
    (worldAfter space before jobs after).tracker.pruneUnclaimedBarriers.barriers.get? barrier =
      some entry

variable {space before jobs} {after : List Event}

theorem worldAfter_eq : worldAfter space before jobs after =
    (((World.start space).run before).step (.snapshot jobs)).run after := by
  rw [worldAfter, World.run_append, World.run_cons]

theorem worldAfter_append (a b : List Event) :
    worldAfter space before jobs (a ++ b) = (worldAfter space before jobs a).run b := by
  rw [worldAfter_eq, worldAfter_eq, World.run_append]

theorem next_start (h : before.countP isSnapshot ≤ u64Max) :
    ((World.start space).run before).tracker.next = before.countP isSnapshot := by
  have hstart : (World.start space).tracker.next = 0 := rfl
  rw [(next_run _ before (by omega)).1, hstart, Nat.zero_add]

/-- The snapshot gives out its name, and later ones have numbers left. -/
theorem given_worldAfter (hcount : (before ++ .snapshot jobs :: after).countP isSnapshot ≤ u64Max) :
    Given (barrierOf space before jobs) (worldAfter space before jobs []) ∧
      (worldAfter space before jobs []).tracker.next + after.countP isSnapshot ≤ u64Max := by
  have hsnapshot : isSnapshot (Event.snapshot jobs) = true := rfl
  rw [List.countP_append, List.countP_cons_of_pos hsnapshot] at hcount
  have hstart := @next_start space before (by omega)
  have hnext := (next_step ((World.start space).run before) (.snapshot jobs)).1
  rw [if_pos hsnapshot, saturatingAdd, usizeMax, Nat.min_eq_left (by omega)] at hnext
  rw [worldAfter_eq]
  refine ⟨⟨_, le_rfl, rfl⟩, ?_⟩
  rw [World.run, List.foldl_nil, hnext, hstart]
  omega

theorem follows_worldAfter
    (hcount : (before ++ .snapshot jobs :: after).countP isSnapshot ≤ u64Max) :
    Follows (barrierOf space before jobs) jobs.toFinset (completions after)
      (worldAfter space before jobs after).tracker.barriers := by
  obtain ⟨hgiven, hnext⟩ := @given_worldAfter space _ _ _ hcount
  have hbegin : Follows (barrierOf space before jobs) jobs.toFinset []
      (worldAfter space before jobs []).tracker.barriers := by
    rw [worldAfter_eq]
    exact Follows.snapshot jobs
  have hrun := run_keeps (fun world since => Follows _ _ since world.tracker.barriers)
    (fun _ _ event h hreuse => h.step event hreuse) after hbegin hgiven hnext
  rwa [← worldAfter_append, List.nil_append, List.nil_append] at hrun

theorem awaits_worldAfter {middle rest : List Event}
    (hcount : (before ++ .snapshot jobs ::
      (middle ++ .waitBarrier (barrierOf space before jobs) :: rest)).countP isSnapshot ≤ u64Max)
    (htracked : ((worldAfter space before jobs middle).tracker.barriers.get?
      (barrierOf space before jobs)).isSome) :
    Awaits (barrierOf space before jobs) jobs.toFinset
        (completions (middle ++ .waitBarrier (barrierOf space before jobs) :: rest))
        (worldAfter space before jobs middle).fresh
        (worldAfter space before jobs
          (middle ++ .waitBarrier (barrierOf space before jobs) :: rest)) := by
  obtain ⟨hgiven, hnext⟩ := @given_worldAfter space _ _ _ hcount
  have hcount' : (before ++ .snapshot jobs :: middle).countP isSnapshot ≤ u64Max := by
    rw [List.countP_append, List.countP_cons] at hcount ⊢
    rw [List.countP_append] at hcount
    omega
  have hfollows := @follows_worldAfter space _ _ _ hcount'
  have hunused : Unused (worldAfter space before jobs middle).fresh
      (worldAfter space before jobs middle) := (unused_start space _).run _ le_rfl
  have hwait := awaits_await hunused hfollows htracked
  have hfollows' := hfollows.step (.waitBarrier (barrierOf space before jobs))
    (fun ⟨_, h, _⟩ => nomatch h)
  have hsame : completions middle ++ completions
      [Event.waitBarrier (barrierOf space before jobs)] = completions middle := List.append_nil _
  rw [hsame] at hfollows'
  have hsplit : middle ++ .waitBarrier (barrierOf space before jobs) :: rest =
      (middle ++ [.waitBarrier (barrierOf space before jobs)]) ++ rest := by
    rw [List.append_assoc, List.singleton_append]
  have hworld : (worldAfter space before jobs middle).await (barrierOf space before jobs) =
      (worldAfter space before jobs []).run
        (middle ++ [.waitBarrier (barrierOf space before jobs)]) := by
    rw [← worldAfter_append, List.nil_append, worldAfter_append]
    rfl
  rw [hsplit, List.countP_append] at hnext
  have hgiven' := @Given.run _ _ hgiven (middle ++ [.waitBarrier (barrierOf space before jobs)])
    (by omega)
  have hnext' := (next_run (worldAfter space before jobs [])
    (middle ++ [.waitBarrier (barrierOf space before jobs)]) (by omega)).1
  have hrun := run_keeps
    (fun world since => Follows (barrierOf space before jobs) jobs.toFinset since
      world.tracker.barriers ∧ Awaits _ _ since (worldAfter space before jobs middle).fresh world)
    (fun _ _ event h hreuse => ⟨h.1.step event hreuse, h.2.step h.1 event hreuse⟩) rest
    ⟨hfollows', hwait⟩ (by rwa [World.step, hworld]) (by rw [World.step, hworld, hnext']; omega)
  have hdone := hrun.2
  rw [World.step, hworld, ← worldAfter_append, List.nil_append, ← worldAfter_append, ← hsplit,
    ← hsame, List.append_assoc, ← completions_append, ← completions_append] at hdone
  exact hdone

/-- Every barrier reports its snapshot and every caller has its answer, as long as snapshots have
numbers of their own. -/
theorem barrierReports (hcount : (before ++ .snapshot jobs :: after).countP isSnapshot ≤ u64Max) :
    BarrierReports space before jobs after := by
  have hfollows := @follows_worldAfter space _ _ _ hcount
  constructor
  case partition =>
    intro entry hentry
    have htracked := hfollows.tracked entry hentry
    have hkeys : ∀ job, job ∈ entry.results.keys.toFinset ↔
        job ∈ jobs.toFinset ∧ (completions after).lookup job ≠ none := by
      intro job
      rw [List.mem_toFinset, Table.mem_keys_iff, htracked.results job]
      split
      · next hjob => rw [Option.ne_none_iff_exists', and_iff_right hjob]
      · next hjob => simp [hjob]
    refine ⟨?_, ?_, ?_⟩
    · rw [Finset.disjoint_left]
      intro job hpending hresult
      exact ((hkeys job).mp hresult).2 ((htracked.pending job).mp hpending).2
    · ext job
      rw [Finset.mem_union, htracked.pending job, hkeys job]
      constructor
      · rintro (h | h)
        · exact h.1
        · exact h.1
      · intro hjob
        by_cases hnone : (completions after).lookup job = none
        · exact .inl ⟨hjob, hnone⟩
        · exact .inr ⟨hjob, hnone⟩
    · intro job value hvalue
      rw [htracked.results job] at hvalue
      split at hvalue
      · exact hvalue
      · cases hvalue
  case answered =>
    rintro middle rest rfl htracked
    have hawaits := awaits_worldAfter hcount htracked
    refine ⟨?_, fun hlive hcomplete hnone => ?_⟩
    · rcases hawaits.here with ⟨hnone, -⟩ | ⟨-, hdone⟩
      · exact .inl hnone
      · exact .inr hdone
    · rcases hawaits.here with ⟨-, -, hwait⟩ | ⟨-, _, -, hdone⟩
      · -- it waits, so the barrier is there and something is pending
        have hone := hwait.resolve_left hlive
        rcases hget : (worldAfter space before jobs _).tracker.barriers.get?
          (barrierOf space before jobs) with _ | entry
        · rw [waiting, hget] at hone
          cases hone
        · have hpending : entry.pending ≠ ∅ := by
            intro hempty
            rw [waiting_of_get? hget, hfollows.awaited entry hget hempty] at hone
            cases hone
          obtain ⟨job, hjob, hlookup⟩ := (hfollows.tracked entry hget).mem_pending_or hpending
          obtain ⟨value, hvalue⟩ := hcomplete job (List.mem_toFinset.mp hjob)
          rw [hlookup] at hvalue
          cases hvalue
      · rw [hnone] at hdone
        cases hdone
  case kept =>
    intro barrier entry waiter hentry hmem hlive
    constructor
    · have hpruned := @get?_pruneClosedWaiters (worldAfter space before jobs after).isClosed
        (worldAfter space before jobs after).tracker barrier
      rw [hentry, Option.map_some] at hpruned
      refine ⟨_, hpruned, ?_⟩
      exact List.mem_filter.mpr ⟨hmem, by simp [World.isClosed, hlive]⟩
    · rcases get?_pruneUnclaimedBarriers (worldAfter space before jobs after).tracker barrier with
        hsame | ⟨-, other, hother, hempty⟩
      · rw [hsame, hentry]
      · rw [hentry, Option.some.injEq] at hother
        subst hother
        rw [hempty] at hmem
        cases hmem

end Reports

namespace BarrierSample

theorem barrierReports_two_jobs :
    BarrierReports 7 [] ["a", "b"]
      [.waitBarrier "barrier:drain:7:1", .completeJob "b" (.bool true) [],
        .completeJob "a" (.bool false) [], .completeJob "b" .null []] :=
  barrierReports (by decide)

/-- Snapshots without jobs, each taken away at once. -/
def claimed (n : Nat) : List Event :=
  (List.range n).flatMap fun i => [.snapshot [], .waitBarrier (barrierName 0 (i + 1))]

theorem snapshot_empty (space n : Nat) (closed : Waiter → Bool) (jobs : List String) :
    ((⟨space, n, ∅, ∅⟩ : BarrierTracker).snapshot closed jobs).1 =
      ⟨space, saturatingAdd n 1, (∅ : Dict String BarrierEntry).insert
        (barrierName space (saturatingAdd n 1)) ⟨jobs.toFinset, ∅, []⟩, ∅⟩ :=
  pruneUnclaimedBarriers_of_length_le (by
    change 1 ≤ unclaimedDrainBarrierLimit
    decide)

theorem get?_insert_empty (name : String) (entry : BarrierEntry) (space n : Nat)
    (closed : Waiter → Bool) :
    ((⟨space, n, (∅ : Dict String BarrierEntry).insert name entry, ∅⟩ :
      BarrierTracker).pruneClosedWaiters closed).barriers.get? name =
        some { entry with waiters := entry.waiters.filter (!closed ·) } := by
  rw [get?_pruneClosedWaiters, Dict.get?_insert_self]
  rfl

theorem erase_insert_empty (name : String) (entry : BarrierEntry)
    (f : String → BarrierEntry → BarrierEntry) :
    (((∅ : Dict String BarrierEntry).insert name entry).mapVals f).erase name = ∅ := by
  simp only [Dict.erase, Dict.mapVals, Dict.insert, Dict.entries_empty]
  simp
  rfl

theorem run_claimed {n : Nat} (h : n ≤ u64Max) :
    ((World.start 0).run (claimed n)).tracker = ⟨0, n, ∅, ∅⟩ ∧
      ((World.start 0).run (claimed n)).closed = [] := by
  induction n with
  | zero => exact ⟨rfl, rfl⟩
  | succ n ih =>
    obtain ⟨htracker, hclosed⟩ := ih (by omega)
    have hnext : saturatingAdd n 1 = n + 1 := by
      rw [saturatingAdd, usizeMax, Nat.min_eq_left h]
    have hsplit : claimed (n + 1) =
        claimed n ++ [.snapshot [], .waitBarrier (barrierName 0 (n + 1))] := by
      simp [claimed, List.range_succ]
    rw [hsplit, World.run_append]
    generalize (World.start 0).run (claimed n) = world at htracker hclosed
    refine ⟨?_, hclosed⟩
    change ((world.step (.snapshot [])).await (barrierName 0 (n + 1))).tracker = _
    rw [World.await, World.step, htracker, snapshot_empty, hnext, BarrierTracker.waitBarrier]
    simp only [get?_insert_empty, List.toFinset_nil, if_true]
    rw [BarrierTracker.mk.injEq]
    exact ⟨rfl, rfl, erase_insert_empty _ _ _, rfl⟩

/-- A snapshot that takes the number of the last one replaces it, with its caller. -/
theorem not_barrierReports_of_stays {space n m : Nat} {before : List Event}
    (htracker : ((World.start space).run before).tracker = ⟨space, n, ∅, ∅⟩)
    (hclosed : ((World.start space).run before).closed = []) (hlast : saturatingAdd n 1 = m)
    (hstays : saturatingAdd m 1 = m) :
    ¬ BarrierReports space before ["job"]
      [.waitBarrier (barrierName space m), .snapshot ["job"], .completeJob "job" .null []] := by
  intro h
  have hbarrier : barrierOf space before ["job"] = barrierName space m := by
    rw [barrierOf, snapshot_name, htracker, hlast]
  have hzero : (worldAfter space before ["job"] []).tracker =
      ⟨space, m, (∅ : Dict String BarrierEntry).insert (barrierName space m)
        ⟨["job"].toFinset, ∅, []⟩, ∅⟩ := by
    rw [worldAfter_eq]
    change ((World.run _ _).tracker.snapshot _ _).1 = _
    rw [htracker, snapshot_empty, hlast]
  have hstart : (worldAfter space before ["job"] []).closed = [] := by
    rw [worldAfter_eq]
    exact hclosed
  have hunused : Unused (worldAfter space before ["job"] []).fresh
      (worldAfter space before ["job"] []) := (unused_start space _).run _ le_rfl
  have hall : worldAfter space before ["job"]
      [.waitBarrier (barrierName space m), .snapshot ["job"], .completeJob "job" .null []] =
      (((worldAfter space before ["job"] []).await (barrierName space m)).step
        (.snapshot ["job"])).complete "job" .null [] := by
    rw [worldAfter_eq, worldAfter_eq]
    rfl
  have hfollows : Follows (barrierName space m) ["job"].toFinset []
      (worldAfter space before ["job"] []).tracker.barriers := by
    have hsnapshot := @Follows.snapshot ⟨space, n, ∅, ∅⟩ (fun _ => false) ["job"]
    rwa [snapshot_empty, snapshot_name, hlast, ← hzero] at hsnapshot
  have hanswered := h.answered [] [.snapshot ["job"], .completeJob "job" .null []]
  rw [hbarrier, hall] at hanswered
  generalize worldAfter space before ["job"] [] = world at *
  have htracked : (world.tracker.barriers.get? (barrierName space m)).isSome := by
    rw [hzero, Dict.get?_insert_self]
    rfl
  have hawaits := awaits_await hunused hfollows htracked
  have hnone : answersTo world.fresh (world.await (barrierName space m)).answers = [] := by
    rcases hawaits.here with ⟨hnone, -⟩ | ⟨-, _, hreports, -⟩
    · exact hnone
    · obtain ⟨_, hlookup⟩ := hreports.complete "job" (by simp)
      cases hlookup
  have hnext : (world.await (barrierName space m)).tracker.next = m ∧
      (world.await (barrierName space m)).tracker.namespace = space := by
    obtain ⟨hnext, hspace⟩ := next_step world (.waitBarrier (barrierName space m))
    rw [hzero] at hnext hspace
    exact ⟨hnext, hspace⟩
  have hlost : Unused world.fresh ((world.await (barrierName space m)).step (.snapshot ["job"])) := by
    refine ⟨fun q => ?_, fun job => ?_, hnone⟩
    · rw [World.step, waiting_snapshot, snapshot_name, hnext.1, hnext.2, hstays]
      by_cases hq : q = barrierName space m
      · rw [if_pos hq]
      · rw [if_neg hq, hawaits.elsewhere q hq, ite_self]
    · exact Nat.le_zero.mp ((waitingJob_pruneClosedWaiters_le job).trans (hawaits.noJob job).le)
  refine (hanswered rfl htracked).2 ?_ ?_ (hlost.complete "job" .null []).answers
  · change world.fresh ∉ world.closed ++ []
    simp [hstart]
  · intro job hjob
    rw [List.mem_singleton.mp hjob]
    exact ⟨.null, rfl⟩

/-- The numbers end at `u64::MAX`. -/
theorem not_barrierReports_saturated :
    ¬ BarrierReports 0 (claimed (u64Max - 1)) ["job"]
      [.waitBarrier (barrierName 0 u64Max), .snapshot ["job"], .completeJob "job" .null []] :=
  have hrun := run_claimed (n := u64Max - 1) (by decide)
  not_barrierReports_of_stays hrun.1 hrun.2 (by decide) (by decide)

end BarrierSample

end Tally.Daemon
