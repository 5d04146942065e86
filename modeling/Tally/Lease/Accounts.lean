import Tally.Lease.Rebuild
import Tally.Lease.Tickets

/-!
# The accounts of an engine

A pool with a window keeps its debits in a queue that is pruned from the front, and the log keeps
them for good. This module says what a move does to both: most moves touch neither, a grant appends
one line and one debit for each of its windowed pools, and an attempt that the log refuses may leave
a line behind and nothing else.
-/

namespace Tally.Lease

open LeaseEngine

/-! ## What appends leave in the file -/

/-- The append leaves its whole line in the file, or nothing. -/
def AppendFate.whole : AppendFate → Bool
  | .written | .lost | .indeterminate => true
  | .unterminated | .torn => false

/-- The append leaves nothing in the file if it is reported failed. -/
def AppendFate.honest : AppendFate → Bool
  | .written | .lost => true
  | .indeterminate | .unterminated | .torn => false

theorem AppendFate.whole_of_honest {fate : AppendFate} (h : fate.honest) : fate.whole := by
  cases fate <;> first | rfl | cases h

/-- The file holds whole lines only, and no append will change that. -/
structure LeaseEventLog.Whole (log : LeaseEventLog) : Prop where
  ended : log.unterminated = false
  intact : log.garbled = false
  fates : ∀ fate ∈ log.fates, fate.whole

/-- The file holds the lines of successful appends only. -/
structure LeaseEventLog.Honest (log : LeaseEventLog) : Prop where
  whole : log.Whole
  fates : ∀ fate ∈ log.fates, fate.honest

/-- What an append leaves. -/
structure LeaseEventLog.Appends (log : LeaseEventLog) (event : LeaseEvent)
    (result : Except LeaseError Unit) (log' : LeaseEventLog) : Prop where
  lines : log'.lines = log.lines ∨ log'.lines = log.lines ++ [event]
  logged : result = .ok () → log'.lines = log.lines ++ [event]
  whole : log.Whole → log'.Whole
  honest : log.Honest → log'.Honest
  lost : log.Honest → ¬ result = .ok () → log'.lines = log.lines

theorem LeaseEventLog.append_cases (log : LeaseEventLog) (event : LeaseEvent) :
    log.Appends event (log.append event).1 (log.append event).2 := by
  obtain ⟨lines, unterminated, garbled, fates⟩ := log
  -- a line that is written whole after whole lines keeps the file whole
  have hpush : ∀ {fates'}, (⟨lines, unterminated, garbled, fates⟩ : LeaseEventLog).Whole →
      (∀ fate ∈ fates', fate.whole) →
      LeaseEventLog.Whole ⟨lines ++ [event], false, garbled || unterminated, fates'⟩ := by
    rintro fates' ⟨hended, hintact, -⟩ hfates'
    refine ⟨rfl, ?_, hfates'⟩
    change (garbled || unterminated) = false
    rw [show garbled = false from hintact, show unterminated = false from hended]
    rfl
  cases fates with
  | nil =>
    refine ⟨.inr rfl, fun _ => rfl, fun h => hpush h (by simp), fun h => ?_, fun _ h => absurd rfl h⟩
    exact ⟨hpush h.whole (by simp), by simp [append, push]⟩
  | cons fate rest =>
    have hwhole : ∀ {lines' unterminated' garbled'},
        (⟨lines', unterminated', garbled', fate :: rest⟩ : LeaseEventLog).Whole →
        fate.whole ∧ ∀ fate ∈ rest, fate.whole := by
      intro lines' unterminated' garbled' h
      exact List.forall_mem_cons.mp h.fates
    have hhonest : ∀ {lines' unterminated' garbled'},
        (⟨lines', unterminated', garbled', fate :: rest⟩ : LeaseEventLog).Honest →
        fate.honest ∧ ∀ fate ∈ rest, fate.honest := by
      intro lines' unterminated' garbled' h
      exact List.forall_mem_cons.mp h.fates
    cases fate with
    | written =>
      refine ⟨.inr rfl, fun _ => rfl, fun h => hpush h (hwhole h).2, fun h => ?_,
        fun _ h => absurd rfl h⟩
      exact ⟨hpush h.whole (hwhole h.whole).2, (hhonest h).2⟩
    | lost =>
      refine ⟨.inl rfl, (fun h => by cases h), fun h => ⟨h.ended, h.intact, (hwhole h).2⟩, fun h => ?_,
        fun _ _ => rfl⟩
      exact ⟨⟨h.whole.ended, h.whole.intact, (hwhole h.whole).2⟩, (hhonest h).2⟩
    | indeterminate =>
      refine ⟨.inr rfl, (fun h => by cases h), fun h => hpush h (hwhole h).2, fun h => ?_, fun h => ?_⟩
      · cases (hhonest h).1
      · cases (hhonest h).1
    | unterminated =>
      refine ⟨.inr rfl, (fun h => by cases h), fun h => ?_, fun h => ?_, fun h => ?_⟩
      · cases (hwhole h).1
      · cases (hhonest h).1
      · cases (hhonest h).1
    | torn =>
      refine ⟨.inl rfl, (fun h => by cases h), fun h => ?_, fun h => ?_, fun h => ?_⟩
      · cases (hwhole h).1
      · cases (hhonest h).1
      · cases (hhonest h).1

/-! ## Queues in the order of their stamps -/

/-- The stamps do not decrease. -/
def Stamped (debits : List BudgetDebit) : Prop :=
  debits.Pairwise fun first second => first.admittedAt ≤ second.admittedAt

/-- In a stamped queue the debits that have left the window are at the front. -/
theorem Stamped.dropWhile_expired {debits : List BudgetDebit} (h : Stamped debits) {window : Int}
    (hdated : ∀ debit ∈ debits, Dated window debit) (now : Time) :
    debits.dropWhile (expired window now) = debits.filter fun debit => !expired window now debit := by
  induction debits with
  | nil => rfl
  | cons debit rest ih =>
    obtain ⟨hhead, htail⟩ := List.pairwise_cons.mp h
    rw [List.forall_mem_cons] at hdated
    by_cases hout : expired window now debit
    · rw [List.dropWhile_cons_of_pos hout, ih htail hdated.2,
        List.filter_cons_of_neg (by simp [hout])]
    · rw [List.dropWhile_cons_of_neg hout, List.filter_cons_of_pos (by simpa using hout)]
      congr 1
      symm
      rw [List.filter_eq_self]
      intro later hlater
      have hle := hhead later hlater
      simp only [expired, decide_eq_true_eq, Bool.not_eq_true', decide_eq_false_iff_not, not_and]
        at hout ⊢
      intro _ hlate
      exact hout hdated.1 (Int.le_trans (Int.add_le_add_right hle window) hlate)

/-- The debits of one pool. -/
def debitsOf (pool : String) (debits : List BudgetDebit) : List BudgetDebit :=
  debits.filter fun debit => debit.pool = pool

theorem debitsOf_append (pool : String) (l l' : List BudgetDebit) :
    debitsOf pool (l ++ l') = debitsOf pool l ++ debitsOf pool l' :=
  List.filter_append ..

/-- The live debits of a windowed pool, for the scan of the log. -/
theorem liveDebits_eq {pools : Dict String PoolConfig} {pool : String} {config : PoolConfig}
    {window : WindowedConsumptionPredicate} (hconfig : pools.get? pool = some config)
    (hwindow : config.predicate = .windowedConsumption window) (now : Time)
    {debits : List BudgetDebit} (hends : WindowsEnd pools debits) :
    liveDebits pools now pool debits = (debitsOf pool debits).filter fun debit =>
      !expired (window.windowSec * nanosPerSec) now debit := by
  rw [liveDebits, debitsOf, List.filter_filter]
  apply List.filter_congr
  intro debit hdebit
  by_cases hpool : debit.pool = pool
  · have hdated := (hends debit hdebit config (hpool ▸ hconfig) window hwindow).2
    simp only [hpool, InWindow, hconfig, hwindow, expired, hdated, true_and, decide_true,
      Bool.true_and, Bool.and_true]
    rw [← decide_not]
    simp only [Int.not_le]
  · simp [hpool]

/-- The ends of the debits of one pool. -/
theorem WindowsEnd.dated {pools : Dict String PoolConfig} {pool : String} {config : PoolConfig}
    {window : WindowedConsumptionPredicate} (hconfig : pools.get? pool = some config)
    (hwindow : config.predicate = .windowedConsumption window) {debits : List BudgetDebit}
    (hends : WindowsEnd pools debits) {debit : BudgetDebit} (hdebit : debit ∈ debitsOf pool debits) :
    window.windowSec ≤ maxDurationSec ∧ Dated (window.windowSec * nanosPerSec) debit := by
  obtain ⟨hmem, hpool⟩ := List.mem_filter.mp hdebit
  rw [decide_eq_true_eq] at hpool
  exact hends debit hmem config (hpool ▸ hconfig) window hwindow

namespace LeaseEngine

/-- A windowed pool that takes a request has the budget for it. -/
theorem Fits.budget {engine : LeaseEngine} {request : LeaseRequest} {now : Time}
    (h : engine.Fits request now) (hpruned : engine.PrunedAt request.pools now) {pool : String}
    {state : RuntimePool} {window : WindowedConsumptionPredicate} (hpool : pool ∈ request.pools)
    (hs : engine.pools.get? pool = some state)
    (hwindow : state.config.predicate = .windowedConsumption window) :
    window.windowSec ≤ maxDurationSec ∧
      usageOf state.debits + (engine.effectiveRequest request).consumptionEstimate.getD 0 ≤
        min u64Max window.consumptionCap := by
  obtain ⟨state', hs', htakes⟩ := h pool hpool
  rw [hs] at hs'
  cases hs'
  rw [RuntimePool.Takes, hwindow, hpruned pool hpool state hs] at htakes
  exact htakes

/-! ## The debits of a grant -/

theorem mem_debitsFor {engine : LeaseEngine} {request : LeaseRequest} {now : Time}
    {debit : BudgetDebit} (h : debit ∈ engine.debitsFor request now) :
    engine.alreadyDebited request.admissionKey = false ∧ debit.pool ∈ request.pools ∧
      engine.isWindowedPool debit.pool ∧ debit.admittedAt = timestamp now ∧
      debit.amount = request.consumptionEstimate.getD 0 := by
  unfold debitsFor at h
  split at h
  · cases h
  next hfresh =>
  rw [Bool.not_eq_true] at hfresh
  obtain ⟨pool, hpool, rfl⟩ := List.mem_map.mp h
  obtain ⟨hmem, hwindowed⟩ := List.mem_filter.mp hpool
  exact ⟨hfresh, hmem, hwindowed, rfl, rfl⟩

/-- A grant debits a pool at most once, by the estimate. -/
theorem debitsOf_debitsFor {engine : LeaseEngine} {request : LeaseRequest} {now : Time}
    (hnodup : request.pools.Nodup) (pool : String) :
    debitsOf pool (engine.debitsFor request now) = [] ∨
      pool ∈ request.pools ∧ engine.alreadyDebited request.admissionKey = false ∧
      debitsOf pool (engine.debitsFor request now) =
        [{ pool, amount := request.consumptionEstimate.getD 0, admittedAt := timestamp now }] := by
  unfold debitsFor
  split
  · exact .inl rfl
  next hfresh =>
  rw [Bool.not_eq_true] at hfresh
  rw [debitsOf, List.filter_map]
  by_cases hmem : pool ∈ request.pools.filter engine.isWindowedPool
  · refine .inr ⟨List.mem_of_mem_filter hmem, hfresh, ?_⟩
    have hone : (request.pools.filter engine.isWindowedPool).filter (fun q => q = pool) = [pool] := by
      rw [List.filter_eq, List.count_eq_one_of_mem (hnodup.filter _) hmem]
      rfl
    simp only [Function.comp_def]
    rw [hone]
    rfl
  · left
    rw [List.map_eq_nil_iff, List.filter_eq_nil_iff]
    intro q hq
    simp only [Function.comp_def, decide_eq_true_eq]
    rintro rfl
    exact hmem hq

theorem isWindowedPool_iff {engine : LeaseEngine} {pool : String} :
    engine.isWindowedPool pool ↔ ∃ state window, engine.pools.get? pool = some state ∧
      state.config.predicate = .windowedConsumption window := by
  unfold isWindowedPool
  cases engine.pools.get? pool with
  | none => simp
  | some state =>
    cases h : state.config.predicate <;> simp [h, PoolPredicate.isWindowed]

end LeaseEngine

/-! ## Lines and charges -/

/-- The lease that a line grants. -/
def LeaseEvent.grantedId (line : LeaseEvent) : Option String :=
  match line.event with
  | .granted grant _ => some grant.leaseId
  | _ => none

/-- The admission key that a line charges. -/
def LeaseEvent.chargedKey (line : LeaseEvent) : Option String :=
  match line.event with
  | .granted grant debits => LeaseEngine.chargedKey grant debits
  | _ => none

theorem Charges.add_ids (charges : Charges) (line : LeaseEvent) {id : String}
    (h : id ∈ (charges.add line).ids) : id ∈ charges.ids ∨ line.grantedId = some id := by
  unfold Charges.add at h
  unfold LeaseEvent.grantedId
  cases hevent : line.event with
  | granted grant debits =>
    simp only [hevent] at h ⊢
    have hinsert : ∀ {ids : Finset String}, id ∈ insert grant.leaseId ids →
        id ∈ ids ∨ some grant.leaseId = some id := by
      intro ids hmem
      rcases Finset.mem_insert.mp hmem with rfl | hmem
      · exact .inr rfl
      · exact .inl hmem
    split at h
    · exact .inl h
    · split at h
      · split at h <;> exact hinsert h
      · exact hinsert h
  | _ =>
    simp only [hevent] at h
    exact .inl h

theorem Charges.add_keys (charges : Charges) (line : LeaseEvent) {key : String}
    (h : key ∈ (charges.add line).keys) : key ∈ charges.keys ∨ line.chargedKey = some key := by
  unfold Charges.add at h
  unfold LeaseEvent.chargedKey
  cases hevent : line.event with
  | granted grant debits =>
    simp only [hevent] at h ⊢
    split at h
    · exact .inl h
    split at h
    · next charged hcharged =>
      split at h
      · exact .inl h
      · rcases Finset.mem_insert.mp h with rfl | hmem
        · exact .inr hcharged
        · exact .inl hmem
    · exact .inl h
  | _ =>
    simp only [hevent] at h
    exact .inl h

/-- The charges only grow. -/
theorem Charges.keys_subset_add (charges : Charges) (line : LeaseEvent) :
    charges.keys ⊆ (charges.add line).keys := by
  unfold Charges.add
  cases line.event with
  | granted grant debits =>
    dsimp only
    split
    · exact subset_rfl
    · split
      · split
        · exact subset_rfl
        · exact Finset.subset_insert _ _
      · exact subset_rfl
  | _ => exact subset_rfl

/-- A line with a new lease and, if it charges one, a new key is counted in full. -/
theorem Charges.add_fresh {charges : Charges} {line : LeaseEvent} {grant : LeaseGrant}
    {debits : List BudgetDebit} (hevent : line.event = .granted grant debits)
    (hid : grant.leaseId ∉ charges.ids)
    (hkey : ∀ key, LeaseEngine.chargedKey grant debits = some key → key ∉ charges.keys) :
    charges.add line = {
      ids := insert grant.leaseId charges.ids
      keys := match LeaseEngine.chargedKey grant debits with
        | some key => insert key charges.keys
        | none => charges.keys
      debits := charges.debits ++ debits } := by
  unfold Charges.add
  simp only [hevent, if_neg hid]
  cases hcharged : LeaseEngine.chargedKey grant debits with
  | none => rfl
  | some key => simp only [if_neg (hkey key hcharged)]

/-- A line without debits charges nothing. -/
theorem Charges.add_free (charges : Charges) {line : LeaseEvent} {grant : LeaseGrant}
    (hevent : line.event = .granted grant []) :
    (charges.add line).keys = charges.keys ∧ (charges.add line).debits = charges.debits := by
  unfold Charges.add
  simp only [hevent, LeaseEngine.chargedKey, List.isEmpty_nil, if_true, List.append_nil]
  split <;> exact ⟨rfl, rfl⟩

theorem mem_chargesOf_ids {lines : List LeaseEvent} {id : String} (h : id ∈ (chargesOf lines).ids) :
    ∃ line ∈ lines, line.grantedId = some id := by
  induction lines using List.reverseRecOn with
  | nil => cases h
  | append_singleton lines line ih =>
    rw [chargesOf_append] at h
    rcases Charges.add_ids _ _ h with h | h
    · obtain ⟨line', hmem, hgrants⟩ := ih h
      exact ⟨line', List.mem_append_left _ hmem, hgrants⟩
    · exact ⟨line, by simp, h⟩

theorem mem_chargesOf_keys {lines : List LeaseEvent} {key : String}
    (h : key ∈ (chargesOf lines).keys) : ∃ line ∈ lines, line.chargedKey = some key := by
  induction lines using List.reverseRecOn with
  | nil => cases h
  | append_singleton lines line ih =>
    rw [chargesOf_append] at h
    rcases Charges.add_keys _ _ h with h | h
    · obtain ⟨line', hmem, hcharges⟩ := ih h
      exact ⟨line', List.mem_append_left _ hmem, hcharges⟩
    · exact ⟨line, by simp, h⟩

/-- Ghost: the entries of the trace that are not grants. -/
def TraceEntry.quiet : TraceEntry → Bool
  | .granted .. => false
  | _ => true

namespace LeaseEngine

/-- What the log holds after the line of a grant has been offered to it. -/
theorem logGrant_events {a : LeaseEngine} {log : LeaseEventLog} (h : a.events = some log)
    (ticketId : String) (request : LeaseRequest) (now : Time) :
    ∃ log', (a.logGrant ticketId request now).events = some log' ∧
      (log'.lines = log.lines ∨ log'.lines = log.lines ++ [a.grantEvent ticketId request now]) ∧
      (a.Logged ticketId request now →
        log'.lines = log.lines ++ [a.grantEvent ticketId request now]) ∧
      (log.Whole → log'.Whole) ∧
      (log.Honest → log'.Honest ∧ (¬ a.Logged ticketId request now → log'.lines = log.lines)) := by
  rw [logGrant, Logged, h]
  dsimp only [appendLine]
  refine ⟨_, rfl, ?_⟩
  have hcases := log.append_cases (a.grantEvent ticketId request now)
  refine ⟨hcases.lines, hcases.logged, hcases.whole, fun hhonest => ?_⟩
  exact ⟨hcases.honest hhonest, hcases.lost hhonest⟩

/-! ## Moves on the accounts -/

/-- The windowed pools of `b` are those of `a`, with the same queues. -/
def SameWindows (a b : LeaseEngine) : Prop :=
  ∀ pool state, b.pools.get? pool = some state → state.config.predicate.isWindowed →
    ∃ old, a.pools.get? pool = some old ∧ state.config = old.config ∧ state.debits = old.debits

/-- A request that a move offers to the log, under a ticket that is next or waits. -/
structure Offered (now : Time) (a : LeaseEngine) (ticketId : String) (request : LeaseRequest) :
    Prop where
  ticket : ticketId = a.nextTicket ∨ ticketId ∈ a.pendingIds
  fits : a.Fits request now
  pruned : a.PrunedAt request.pools now
  nodup : request.pools.Nodup

/-- What a move does to the log, to the budgets and to the debited admissions. -/
inductive Account (now : Time) (a b : LeaseEngine) : Prop
  | prune (h : PruneOf now a b)
  | quiet (events : b.events = a.events) (keys : b.debitedAdmissions = a.debitedAdmissions)
    (trace : ∃ entries, b.trace = entries ++ a.trace ∧ ∀ entry ∈ entries, entry.quiet)
    (pools : SameWindows a b)
  | charge {ticketId : String} {request : LeaseRequest} (offered : Offered now a ticketId request)
    (logged : a.Logged ticketId request now)
    (events : b.events = (a.logGrant ticketId request now).events)
    (keys : b.debitedAdmissions = (a.granted ticketId request now).debitedAdmissions)
    (trace : b.trace = .granted now ticketId request (a.debitsFor request now) a.logLines :: a.trace)
    (pools : b.pools = (a.granted ticketId request now).pools)
    (held : ∃ held, b.held.get? ticketId = some held)
  | attempt {ticketId : String} {request : LeaseRequest} (offered : Offered now a ticketId request)
    (failed : ¬ a.Logged ticketId request now)
    (events : b.events = (a.logGrant ticketId request now).events)
    (keys : b.debitedAdmissions = a.debitedAdmissions) (trace : b.trace = a.trace)
    (pools : b.pools = a.pools)

theorem SameWindows.of_eq {a b : LeaseEngine} (h : b.pools = a.pools) : SameWindows a b :=
  fun _ state hs _ => ⟨state, h ▸ hs, rfl, rfl⟩

end LeaseEngine

/-- An open pool stays open and keeps its configuration. -/
theorem Move.get?_config {base : Nat} {now : Time} {own : LeaseRequest → Prop} {a b : LeaseEngine}
    (hmove : Move base now own a b) {pool : String} {state : RuntimePool}
    (hs : a.pools.get? pool = some state) :
    ∃ state', b.pools.get? pool = some state' ∧ state'.config = state.config := by
  cases hmove with
  | prune hp =>
    obtain ⟨state', hs', h | h⟩ := hp.get?_some hs
    · exact ⟨state', hs', h ▸ rfl⟩
    · exact ⟨state', hs', by rw [h, RuntimePool.prune_config]⟩
  | @openPool q campaign absent =>
    have hne : pool ≠ q := by
      rintro rfl
      rw [absent] at hs
      cases hs
    exact ⟨state, (Dict.get?_insert_ne _ _ hne).trans hs, rfl⟩
  | @grant request mine small ok fits pruned logged =>
    have hget := get?_pools_granted a a.nextTicket request now pool
    rw [hs] at hget
    exact ⟨_, hget, rfl⟩
  | @promote index p select logged =>
    have hget := get?_pools_granted a p.ticketId p.request now pool
    rw [hs] at hget
    exact ⟨_, hget, rfl⟩
  | @finish how leaseId held get =>
    have hget := get?_pools_finished a how leaseId held pool
    rw [hs] at hget
    exact ⟨_, hget, rfl⟩
  | resort =>
    rcases a.refreshAgedOrder_cases now with hr | hr <;> rw [hr] <;> exact ⟨state, hs, rfl⟩
  | _ => exact ⟨state, hs, rfl⟩

/-- What the admission of a request has checked stays true. -/
theorem Move.admissible {base : Nat} {now : Time} {own : LeaseRequest → Prop} {a b : LeaseEngine}
    (hmove : Move base now own a b) {request : LeaseRequest} (h : a.Admissible request) :
    b.Admissible request := by
  refine ⟨h.named, h.canonical, fun pool hpool => ?_, fun pool hpool hwindowed => ?_⟩
  · obtain ⟨state, hs⟩ := h.pools pool hpool
    obtain ⟨state', hs', -⟩ := hmove.get?_config hs
    exact ⟨state', hs'⟩
  · obtain ⟨state, hs⟩ := h.pools pool hpool
    obtain ⟨state', hs', hconfig⟩ := hmove.get?_config hs
    apply h.estimate pool hpool
    simpa [isWindowedPool, hs, hs', hconfig] using hwindowed

/-- Every pending request has passed the checks of its admission. -/
def LeaseEngine.QueueOk (engine : LeaseEngine) : Prop :=
  ∀ p ∈ engine.pending, engine.Admissible p.request

theorem Move.queueOk {base : Nat} {now : Time} {own : LeaseRequest → Prop} {a b : LeaseEngine}
    (hmove : Move base now own a b) (h : a.QueueOk) : b.QueueOk := by
  intro p hp
  rcases hmove.pending_cases hp with ⟨q, hq, rank, rfl⟩ | ⟨-, -, -, hok⟩
  · exact hmove.admissible (h q hq)
  · exact hmove.admissible hok

theorem Move.account {base : Nat} {now : Time} {own : LeaseRequest → Prop} {a b : LeaseEngine}
    (hmove : Move base now own a b) (hpending : a.QueueOk) : Account now a b := by
  have hframe : b.events = a.events → b.debitedAdmissions = a.debitedAdmissions →
      b.trace = a.trace → b.pools = a.pools → Account now a b :=
    fun events keys trace pools => .quiet events keys ⟨[], trace, by simp⟩ (.of_eq pools)
  have hselect : ∀ {index p}, a.FirstFit now index p →
      Offered now a p.ticketId p.request := by
    intro index p select
    have hmem := List.mem_of_getElem? select.get
    exact ⟨.inr (List.mem_map.mpr ⟨p, hmem, rfl⟩), select.fits, select.pruned,
      (hpending p hmem).canonical.nodup⟩
  cases hmove with
  | prune hp => exact .prune hp
  | openPool campaign absent =>
    refine .quiet rfl rfl ⟨[], rfl, by simp⟩ ?_
    intro q state hs hwindowed
    rw [Dict.get?_insert] at hs
    split at hs
    · cases hs
      cases hwindowed
    · exact ⟨state, hs, rfl, rfl⟩
  | @grant request mine small ok fits pruned logged =>
    exact .charge ⟨.inl rfl, fits, pruned, ok.canonical.nodup⟩ logged rfl rfl rfl rfl
      ⟨_, Dict.get?_insert_self ..⟩
  | grantFailed mine small ok fits pruned failed =>
    exact .attempt ⟨.inl rfl, fits, pruned, ok.canonical.nodup⟩ failed rfl rfl rfl rfl
  | resort =>
    rcases a.refreshAgedOrder_cases now with hr | hr
    · rw [hr] at hframe ⊢
      exact hframe rfl rfl rfl rfl
    · rw [hr] at hframe ⊢
      exact hframe rfl rfl rfl rfl
  | promote select logged =>
    exact .charge (hselect select) logged rfl rfl rfl rfl ⟨_, Dict.get?_insert_self ..⟩
  | promoteFailed select failed => exact .attempt (hselect select) failed rfl rfl rfl rfl
  | @finish how leaseId held get =>
    refine .quiet rfl rfl ⟨[.finished how leaseId], rfl, by simp [TraceEntry.quiet]⟩ ?_
    intro pool state hs _
    rw [get?_pools_finished, Option.map_eq_some_iff] at hs
    obtain ⟨old, hold, rfl⟩ := hs
    exact ⟨old, hold, rfl, rfl⟩
  | reconcile ok =>
    exact .quiet rfl rfl ⟨[_], rfl, by simp [TraceEntry.quiet]⟩ (.of_eq rfl)
  | @cancel ticketId pending =>
    exact .quiet rfl rfl ⟨[.finished .cancelled ticketId], rfl, by simp [TraceEntry.quiet]⟩ (.of_eq rfl)
  | _ => exact hframe rfl rfl rfl rfl

end Tally.Lease
