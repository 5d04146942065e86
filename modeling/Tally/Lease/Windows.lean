import Tally.Lease.Ledger

/-!
# Window caps

The trace remembers every debit. `WindowInv` relates it to the queues of the pools: a queue is the
end of what its pool has been debited, the rest has left the window, and within any window of time
the debits add up to no more than the cap. The time of a debit is its stamp. Stamps and windows are
whole milliseconds, so a debit that has left the window at some instant has left it at the stamp of
that instant. By the instants of the calls the cap can be exceeded: a stamp may lie up to a millisecond
before its call, and the debit leaves the window that much earlier.
-/

namespace Tally.Lease

open LeaseEngine
open Lib (debugText)

def TraceEntry.debits : TraceEntry → List BudgetDebit
  | .granted _ _ _ debits _ => debits
  | _ => []

/-- What a call has debited, if it came after `start` and not after `stop`. -/
def TraceEntry.debitsBetween (start stop : Time) : TraceEntry → List BudgetDebit
  | .granted now _ _ debits _ => if start < now ∧ now ≤ stop then debits else []
  | _ => []

namespace LeaseEngine

/-- Ghost: everything that has been debited, the oldest first. -/
def debited (engine : LeaseEngine) : List BudgetDebit := engine.trace.reverse.flatMap (·.debits)

/-- What a pool has been debited after `start` and until `stop`. -/
def debitedWithin (engine : LeaseEngine) (pool : String) (start stop : Time) : List BudgetDebit :=
  (debitsOf pool engine.debited).filter fun debit =>
    decide (start < debit.admittedAt ∧ debit.admittedAt ≤ stop)

/-- What a pool has been debited by calls after `start` and until `stop`. -/
def debitedByCalls (engine : LeaseEngine) (pool : String) (start stop : Time) : List BudgetDebit :=
  debitsOf pool (engine.trace.reverse.flatMap (·.debitsBetween start stop))

structure WindowInv (now : Time) (engine : LeaseEngine) : Prop where
  queue : engine.QueueOk
  stamped : Stamped engine.debited
  stamps : ∀ debit ∈ engine.debited,
    debit.admittedAt ≤ timestamp now ∧ (nanosPerMilli : Int) ∣ debit.admittedAt
  kept : ∀ pool state window, engine.pools.get? pool = some state →
    state.config.predicate = .windowedConsumption window → ∃ gone,
      debitsOf pool engine.debited = gone ++ state.debits ∧
      ∀ debit ∈ gone, expired (window.windowSec * nanosPerSec) now debit
  usage : ∀ pool state window, engine.pools.get? pool = some state →
    state.config.predicate = .windowedConsumption window →
    usageOf state.debits ≤ min u64Max window.consumptionCap
  capped : ∀ pool state window, engine.pools.get? pool = some state →
    state.config.predicate = .windowedConsumption window → ∀ t : Time,
      usageOf (engine.debitedWithin pool (t - window.windowSec * nanosPerSec) t) ≤
        window.consumptionCap

/-! ## Stamps -/

theorem dvd_timestamp (now : Time) : (nanosPerMilli : Int) ∣ timestamp now :=
  Dvd.intro_left _ rfl

/-- The stamp of an instant is the last whole millisecond. -/
theorem le_timestamp {time now : Time} (hdvd : (nanosPerMilli : Int) ∣ time) (hle : time ≤ now) :
    time ≤ timestamp now := by
  obtain ⟨k, rfl⟩ := hdvd
  have hpos : (0 : Int) < nanosPerMilli := by decide
  have hk : k ≤ now / nanosPerMilli := by
    rw [Int.le_ediv_iff_mul_le hpos, Int.mul_comm]
    exact hle
  rw [timestamp, Int.mul_comm]
  exact Int.mul_le_mul_of_nonneg_right hk hpos.le

theorem dvd_window (seconds : Nat) : (nanosPerMilli : Int) ∣ seconds * nanosPerSec :=
  Dvd.dvd.mul_left (by decide) _

/-- A debit that has left the window is out of it at every instant from the stamp on. -/
theorem expired_at_stamp {debit : BudgetDebit} {seconds : Nat} {now t : Time}
    (hexpired : expired (seconds * nanosPerSec) now debit)
    (hdvd : (nanosPerMilli : Int) ∣ debit.admittedAt) (hle : timestamp now ≤ t) :
    debit.admittedAt ≤ t - seconds * nanosPerSec := by
  have hout := le_timestamp (hdvd.add (dvd_window seconds))
    (of_decide_eq_true hexpired).2
  exact Int.le_sub_right_of_add_le (hout.trans hle)

/-! ## Steps -/

theorem debited_congr {a b : LeaseEngine} (h : b.trace = a.trace) : b.debited = a.debited := by
  rw [debited, debited, h]

theorem debited_quiet {a b : LeaseEngine}
    (h : ∃ entries, b.trace = entries ++ a.trace ∧ ∀ entry ∈ entries, entry.quiet) :
    b.debited = a.debited := by
  obtain ⟨entries, htrace, hquiet⟩ := h
  have hnone : entries.reverse.flatMap (·.debits) = [] := by
    rw [List.flatMap_eq_nil_iff]
    intro entry hentry
    have hq := hquiet entry (List.mem_reverse.mp hentry)
    cases entry with
    | granted _ _ _ _ _ => cases hq
    | reconciled _ _ => rfl
    | finished _ _ => rfl
  rw [debited, htrace, List.reverse_append, List.flatMap_append, hnone, List.append_nil]
  rfl

theorem debitedWithin_congr {a b : LeaseEngine} (h : b.debited = a.debited) (pool : String)
    (start stop : Time) : b.debitedWithin pool start stop = a.debitedWithin pool start stop := by
  rw [debitedWithin, debitedWithin, h]

theorem WindowInv.wait {time now : Time} {engine : LeaseEngine} (h : engine.WindowInv time)
    (hle : time ≤ now) : engine.WindowInv now := by
  refine { h with stamps := ?_, kept := ?_ }
  · intro debit hdebit
    exact ⟨(h.stamps debit hdebit).1.trans (timestamp_mono hle), (h.stamps debit hdebit).2⟩
  · intro pool state window hs hwindow
    obtain ⟨gone, hgone, hexpired⟩ := h.kept pool state window hs hwindow
    exact ⟨gone, hgone, fun debit hdebit => expired_mono hle (hexpired debit hdebit)⟩

/-- A step that debits nothing: every windowed pool was there, and its queue has lost at most what
has left the window. -/
theorem WindowInv.of_pools {now : Time} {a b : LeaseEngine} (h : a.WindowInv now)
    (hqueue : b.QueueOk) (hdebited : b.debited = a.debited)
    (hpools : ∀ pool state window, b.pools.get? pool = some state →
      state.config.predicate = .windowedConsumption window → ∃ old gone,
        a.pools.get? pool = some old ∧ old.config.predicate = .windowedConsumption window ∧
        old.debits = gone ++ state.debits ∧
        ∀ debit ∈ gone, expired (window.windowSec * nanosPerSec) now debit) :
    b.WindowInv now := by
  refine ⟨hqueue, hdebited ▸ h.stamped, hdebited ▸ h.stamps, ?_, ?_, ?_⟩
  · intro pool state window hs hwindow
    obtain ⟨old, more, hold, hwindow', hdebits, hmore⟩ := hpools pool state window hs hwindow
    obtain ⟨gone, hgone, hexpired⟩ := h.kept pool old window hold hwindow'
    refine ⟨gone ++ more, ?_, ?_⟩
    · rw [hdebited, hgone, hdebits, List.append_assoc]
    · intro debit hdebit
      rcases List.mem_append.mp hdebit with hdebit | hdebit
      · exact hexpired debit hdebit
      · exact hmore debit hdebit
  · intro pool state window hs hwindow
    obtain ⟨old, gone, hold, hwindow', hdebits, -⟩ := hpools pool state window hs hwindow
    refine le_trans (usageOf_le_of_sublist ?_) (h.usage pool old window hold hwindow')
    rw [hdebits]
    exact List.sublist_append_right ..
  · intro pool state window hs hwindow t
    obtain ⟨old, -, hold, hwindow', -⟩ := hpools pool state window hs hwindow
    rw [debitedWithin_congr hdebited]
    exact h.capped pool old window hold hwindow' t

theorem WindowInv.prune {now : Time} {a b : LeaseEngine} (h : a.WindowInv now)
    (hqueue : b.QueueOk) (hp : PruneOf now a b) : b.WindowInv now := by
  refine h.of_pools hqueue (debited_congr hp.trace_eq) ?_
  intro pool state window hs hwindow
  obtain ⟨old, hold, rfl | rfl⟩ := hp.get?_inv hs
  · exact ⟨state, [], hold, hwindow, rfl, fun _ hmem => nomatch hmem⟩
  · rw [RuntimePool.prune_config] at hwindow
    by_cases hsec : window.windowSec ≤ maxDurationSec
    · refine ⟨old, old.debits.takeWhile (expired (window.windowSec * nanosPerSec) now), hold,
        hwindow, ?_, fun debit hdebit => List.mem_takeWhile_imp hdebit⟩
      rw [(pruneDebits_windowed hwindow now).1, if_pos hsec, List.takeWhile_append_dropWhile]
    · refine ⟨old, [], hold, hwindow, ?_, fun _ hmem => nomatch hmem⟩
      rw [(pruneDebits_windowed hwindow now).1, if_neg hsec, List.nil_append]

/-- What a grant adds to a window: its debit is at the end, and the queue before it has the room. -/
theorem WindowInv.charge {now : Time} {a b : LeaseEngine} (h : a.WindowInv now)
    (hqueue : b.QueueOk) {ticketId : String} {request : LeaseRequest}
    (offered : Offered now a ticketId request)
    (htrace : b.trace = .granted now ticketId request (a.debitsFor request now) a.logLines :: a.trace)
    (hpools : b.pools = (a.granted ticketId request now).pools) : b.WindowInv now := by
  have hdebited : b.debited = a.debited ++ a.debitsFor request now := by
    rw [debited, htrace, List.reverse_cons, List.flatMap_append, List.flatMap_singleton]
    rfl
  have hget : ∀ {pool state}, b.pools.get? pool = some state → ∃ old, a.pools.get? pool = some old ∧
      state.config = old.config ∧
      state.debits = old.debits ++ debitsOf pool (a.debitsFor request now) := by
    intro pool state hs
    rw [hpools, get?_pools_granted, Option.map_eq_some_iff] at hs
    obtain ⟨old, hold, rfl⟩ := hs
    exact ⟨old, hold, rfl, rfl⟩
  have hroom : ∀ {pool old window}, a.pools.get? pool = some old →
      old.config.predicate = .windowedConsumption window →
      usageOf old.debits + usageOf (debitsOf pool (a.debitsFor request now)) ≤
        min u64Max window.consumptionCap := by
    intro pool old window hold hwindow
    rcases @debitsOf_debitsFor a request now offered.nodup pool with
      hnone | ⟨hmem, hfresh, hone⟩
    · rw [hnone]
      exact h.usage pool old window hold hwindow
    · have hbudget := (offered.fits.budget offered.pruned hmem hold hwindow).2
      have heffective : a.effectiveRequest request = request := by
        rw [effectiveRequest, if_neg (by simp [hfresh])]
      rw [heffective] at hbudget
      rw [hone]
      simpa [usageOf] using hbudget
  refine ⟨hqueue, ?_, ?_, ?_, ?_, ?_⟩
  · rw [hdebited]
    refine List.pairwise_append.mpr ⟨h.stamped, ?_, fun first hfirst second hsecond => ?_⟩
    · refine List.pairwise_of_forall_mem_list fun first hfirst second hsecond => ?_
      rw [(mem_debitsFor hfirst).2.2.2.1, (mem_debitsFor hsecond).2.2.2.1]
    · rw [(mem_debitsFor hsecond).2.2.2.1]
      exact (h.stamps first hfirst).1
  · intro debit hdebit
    rw [hdebited] at hdebit
    rcases List.mem_append.mp hdebit with hdebit | hdebit
    · exact h.stamps debit hdebit
    · rw [(mem_debitsFor hdebit).2.2.2.1]
      exact ⟨le_rfl, dvd_timestamp now⟩
  · intro pool state window hs hwindow
    obtain ⟨old, hold, hconfig, hdebits⟩ := hget hs
    rw [hconfig] at hwindow
    obtain ⟨gone, hgone, hexpired⟩ := h.kept pool old window hold hwindow
    exact ⟨gone, by rw [hdebited, debitsOf_append, hgone, hdebits, List.append_assoc], hexpired⟩
  · intro pool state window hs hwindow
    obtain ⟨old, hold, hconfig, hdebits⟩ := hget hs
    rw [hconfig] at hwindow
    rw [hdebits, usageOf_append]
    exact hroom hold hwindow
  · intro pool state window hs hwindow t
    obtain ⟨old, hold, hconfig, -⟩ := hget hs
    rw [hconfig] at hwindow
    obtain ⟨gone, hgone, hexpired⟩ := h.kept pool old window hold hwindow
    rw [debitedWithin, hdebited, debitsOf_append, List.filter_append, usageOf_append]
    by_cases ht : timestamp now ≤ t
    · -- what is no longer in the queue is out of the window
      have hout : gone.filter (fun debit => decide (t - window.windowSec * nanosPerSec <
          debit.admittedAt ∧ debit.admittedAt ≤ t)) = [] := by
        rw [List.filter_eq_nil_iff]
        intro debit hdebit hin
        have hmem : debit ∈ a.debited := by
          have : debit ∈ debitsOf pool a.debited := hgone ▸ List.mem_append_left _ hdebit
          exact List.mem_of_mem_filter this
        have hle := expired_at_stamp (hexpired debit hdebit) (h.stamps debit hmem).2 ht
        simp only [decide_eq_true_eq] at hin
        exact absurd hin.1 (Int.not_lt.mpr hle)
      rw [hgone, List.filter_append, hout, List.nil_append]
      refine le_trans (Nat.add_le_add (usageOf_le_of_sublist List.filter_sublist)
        (usageOf_le_of_sublist List.filter_sublist)) ?_
      exact (hroom hold hwindow).trans (min_le_right _ _)
    · -- the window ends before the new debit
      have hout : (debitsOf pool (a.debitsFor request now)).filter (fun debit =>
          decide (t - window.windowSec * nanosPerSec < debit.admittedAt ∧
            debit.admittedAt ≤ t)) = [] := by
        rw [List.filter_eq_nil_iff]
        intro debit hdebit hin
        rw [(mem_debitsFor (List.mem_of_mem_filter hdebit)).2.2.2.1] at hin
        simp only [decide_eq_true_eq] at hin
        exact ht hin.2
      rw [hout]
      exact h.capped pool old window hold hwindow t

theorem WindowInv.step {base : Nat} {now : Time} {own : LeaseRequest → Prop} {a b : LeaseEngine}
    (hmove : Move base now own a b) (h : a.WindowInv now) : b.WindowInv now := by
  have hqueue := hmove.queueOk h.queue
  cases hmove.account h.queue with
  | prune hp => exact h.prune hqueue hp
  | quiet events keys trace pools =>
    refine h.of_pools hqueue (debited_quiet trace) ?_
    intro pool state window hs hwindow
    obtain ⟨old, hold, hconfig, hdebits⟩ := pools pool state hs (by rw [hwindow]; rfl)
    exact ⟨old, [], hold, hconfig ▸ hwindow, hdebits ▸ rfl, fun _ hmem => nomatch hmem⟩
  | charge offered logged events keys trace pools held => exact h.charge hqueue offered trace pools
  | attempt offered failed events keys trace pools =>
    refine h.of_pools hqueue (debited_congr trace) ?_
    intro pool state window hs hwindow
    exact ⟨state, [], pools ▸ hs, hwindow, rfl, fun _ hmem => nomatch hmem⟩

/-! ## Runs -/

/-- The calls come at times that do not decrease. -/
def Chronological (ops : List Op) : Prop := (ops.map Op.time).Pairwise (· ≤ ·)

instance (ops : List Op) : Decidable (Chronological ops) :=
  inferInstanceAs (Decidable ((ops.map Op.time).Pairwise (· ≤ ·)))

theorem WindowInv.run {time : Time} {engine : LeaseEngine} (h : engine.WindowInv time)
    {ops : List Op} (hops : Chronological ops) (hlater : ∀ op ∈ ops, time ≤ op.time) :
    ∃ now, (engine.run ops).WindowInv now := by
  induction ops generalizing time engine with
  | nil => exact ⟨time, h⟩
  | cons op ops ih =>
    obtain ⟨hfirst, hrest⟩ := List.pairwise_cons.mp hops
    have hstep : (op.exec engine).2.WindowInv op.time :=
      (op.exec_moves engine).invariant WindowInv.step (h.wait (hlater op List.mem_cons_self))
    exact ih hstep hrest fun next hnext => hfirst _ (List.mem_map_of_mem hnext)

theorem new_windowInv {epoch yieldGrace agingThreshold : Nat} {pools : Dict String PoolConfig}
    {events : Option LeaseEventLog} {engine : LeaseEngine}
    (h : newWithAgingThreshold epoch yieldGrace agingThreshold pools events = .ok engine)
    (now : Time) : engine.WindowInv now := by
  obtain ⟨-, rfl⟩ := new_eq h
  have hempty : ∀ {pool state}, (pools.mapVals fun name config =>
      RuntimePool.new (normalizeConfig name config)).get? pool = some state → state.debits = [] := by
    intro pool state hs
    rw [Dict.get?_mapVals, Option.map_eq_some_iff] at hs
    obtain ⟨config, -, rfl⟩ := hs
    rfl
  refine ⟨fun _ hmem => (nomatch hmem), .nil, fun _ hmem => (nomatch hmem), ?_, ?_,
    fun _ _ _ _ _ _ => Nat.zero_le _⟩
  · intro pool state window hs _
    exact ⟨[], by rw [hempty hs]; rfl, fun _ hmem => nomatch hmem⟩
  · intro pool state window hs _
    rw [hempty hs]
    exact Nat.zero_le _

/-! ## Sums that fit -/

/-- The test of a pool does not run into an overflow. -/
theorem poolAllows_no_overflow {state : RuntimePool} (h : usageOf state.debits ≤ u64Max)
    (pool : String) (request : LeaseRequest) (now : Time) :
    (poolAllows pool state request now).1 ≠
      .error (.invalidRequest ("window usage overflow in pool " ++ debugText pool)) := by
  have hdistinct : ∀ {error : LeaseError}, PruneError error →
      error ≠ .invalidRequest ("window usage overflow in pool " ++ debugText pool) := by
    rintro error (rfl | rfl | rfl) heq
    · cases heq
    · have hlist := congrArg (·.toList.take 8) (LeaseError.invalidRequest.inj heq)
      simp at hlist
    · have hlist := congrArg (·.toList.take 1) (LeaseError.invalidRequest.inj heq)
      simp at hlist
  unfold poolAllows
  split
  · simp
  have hpruned := RuntimePool.prune_debits_sublist state now
  unfold RuntimePool.prune at hpruned
  rcases hp : pruneDebits state now with ⟨error | _, pruned⟩
  · exact fun heq => hdistinct (pruneDebits_error (congrArg Prod.fst hp)) (Except.error.inj heq)
  · rw [hp] at hpruned
    have hle : (pruned.debits.map (·.amount)).sum ≤ u64Max := (usageOf_le_of_sublist hpruned).trans h
    dsimp only
    rw [checkedSum_of_le hle]
    simp

/-- In every window of time a pool is debited no more than its cap, and the sums never overflow. -/
theorem window_capped {epoch yieldGrace agingThreshold : Nat} {pools : Dict String PoolConfig}
    {events : Option LeaseEventLog} {engine : LeaseEngine}
    (hnew : newWithAgingThreshold epoch yieldGrace agingThreshold pools events = .ok engine)
    {ops : List Op} (hops : Chronological ops) {pool : String} {state : RuntimePool}
    {window : WindowedConsumptionPredicate} (hs : (engine.run ops).pools.get? pool = some state)
    (hwindow : state.config.predicate = .windowedConsumption window) :
    (∀ t : Time, usageOf ((engine.run ops).debitedWithin pool
      (t - window.windowSec * nanosPerSec) t) ≤ window.consumptionCap) ∧
    usageOf state.debits ≤ u64Max ∧
    (∀ request now, (poolAllows pool state request now).1 ≠
      .error (.invalidRequest ("window usage overflow in pool " ++ debugText pool))) ∧
    ∀ now used, ((budgetUsedAt pool now).exec (engine.run ops)).1 = .ok used →
      used = usageOf (state.prune now).debits := by
  have hinv : ∃ now, (engine.run ops).WindowInv now := by
    cases ops with
    | nil => exact ⟨0, new_windowInv hnew 0⟩
    | cons op ops =>
      refine (new_windowInv hnew op.time).run hops fun next hnext => ?_
      rcases List.mem_cons.mp hnext with rfl | hnext
      · exact le_rfl
      · exact (List.pairwise_cons.mp hops).1 _ (List.mem_map_of_mem hnext)
  obtain ⟨now, hinv⟩ := hinv
  have husage : usageOf state.debits ≤ u64Max :=
    (hinv.usage pool state window hs hwindow).trans (min_le_left _ _)
  refine ⟨hinv.capped pool state window hs hwindow, husage,
    fun request now => poolAllows_no_overflow husage pool request now, fun now used hused => ?_⟩
  have hle := (usageOf_le_of_sublist (RuntimePool.prune_debits_sublist state now)).trans husage
  rw [budgetUsedAt_eq hs hused, Nat.mod_eq_of_lt (Nat.lt_of_le_of_lt hle (by decide))]

end LeaseEngine

/-- A budget that is used up, waited for and used again. -/
def windowOps : List Op :=
  [.admitAt (apiRequest "a" 60) 0, .admitAt (apiRequest "b" 60) (seconds 10),
    .tick (seconds 60), .releaseAt "lease-1-1" 1 (seconds 61)]

theorem window_capped_api :
    ∃ state, ((apiEngine []).run windowOps).pools.get? "api" = some state ∧
      (∀ t : Time, usageOf (((apiEngine []).run windowOps).debitedWithin "api" (t - seconds 60) t) ≤
        100) ∧ usageOf state.debits ≤ u64Max := by
  have hstate : ∃ state, ((apiEngine []).run windowOps).pools.get? "api" = some state ∧
      state.config.predicate = .windowedConsumption ⟨60, 100⟩ := by
    refine ⟨((((apiEngine []).run windowOps).pools.get? "api").getD ⟨apiConfig, ∅, []⟩), ?_, ?_⟩
    · rfl
    · rfl
  obtain ⟨state, hs, hwindow⟩ := hstate
  have hops : Chronological windowOps := by decide
  obtain ⟨hcap, husage, -⟩ := window_capped (apiEngine_new []) hops hs hwindow
  exact ⟨state, hs, hcap, husage⟩

/-- The first call comes in the first millisecond, and its debit has left the window after a minute. -/
def earlyOps : List Op :=
  [.admitAt (apiRequest "a" 60) 999999, .admitAt (apiRequest "b" 60) (seconds 60)]

/-- Both calls come within one minute, and together they debit 120. -/
theorem window_exceeds_cap_between_calls :
    ¬ ∀ epoch yieldGrace agingThreshold pools events engine,
      newWithAgingThreshold epoch yieldGrace agingThreshold pools events = .ok engine →
      ∀ ops, Chronological ops → ∀ pool state window, (engine.run ops).pools.get? pool = some state →
        state.config.predicate = .windowedConsumption window → ∀ t : Time,
          usageOf ((engine.run ops).debitedByCalls pool (t - window.windowSec * nanosPerSec) t) ≤
            window.consumptionCap := by
  intro hclaim
  have hops : Chronological earlyOps := by decide
  have hstate : ((((apiEngine []).run earlyOps).pools.get? "api").map (·.config.predicate)) =
      some (.windowedConsumption ⟨60, 100⟩) := by decide +kernel
  obtain ⟨state, hs, hwindow⟩ := Option.map_eq_some_iff.mp hstate
  have hle := hclaim _ _ _ _ _ _ (apiEngine_new []) earlyOps hops "api" state _ hs hwindow (seconds 60)
  have hused : usageOf (((apiEngine []).run earlyOps).debitedByCalls "api" (seconds 60 - seconds 60)
      (seconds 60)) = 120 := by decide +kernel
  have hcap : 120 ≤ 100 := hused ▸ hle
  omega

end Tally.Lease
