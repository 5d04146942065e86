import Tally.Lease.World

/-!
# Window budgets across restarts

The log is the ledger of the window budgets. `Books` holds of every world that is reached: the lines
can be read back, their debits are in the order of their stamps, and the windowed pools are those of
the configuration. Over it there are two invariants. `Covered` says that the log accounts for at
least what the engine has debited, as long as no grant is charged again after an attempt that the
log kept. `Exact` says that it accounts for just that, as long as no failed attempt is kept at all.
-/

namespace Tally.Lease

open LeaseEngine

namespace LeaseEngine

/-- What a scan of the log of this engine would count. -/
def charges (engine : LeaseEngine) : Charges := chargesOf engine.logLines

theorem logLines_eq {engine : LeaseEngine} {log : LeaseEventLog} (h : engine.events = some log) :
    engine.logLines = log.lines := by
  rw [logLines, h]

theorem logLines_congr {a b : LeaseEngine} (h : b.events = a.events) : b.logLines = a.logLines := by
  rw [logLines, logLines, h]

structure Books (pools : Dict String PoolConfig) (now : Time) (engine : LeaseEngine) : Prop where
  tickets : engine.TicketInv
  queue : engine.QueueOk
  events : ∃ log, engine.events = some log ∧ Readable log
  /-- The windowed pools are configured as such. -/
  config : ∀ pool state, engine.pools.get? pool = some state → state.config.predicate.isWindowed →
    pools.get? pool = some state.config
  /-- The configured pools are open. -/
  opened : ∀ pool config, pools.get? pool = some config → ∃ state,
    engine.pools.get? pool = some state ∧ state.config = normalizeConfig pool config
  stamps : ∀ debit ∈ engine.charges.debits, debit.admittedAt ≤ timestamp now
  stamped : Stamped engine.charges.debits
  /-- Only windowed pools are debited. -/
  owned : ∀ debit ∈ engine.charges.debits, engine.isWindowedPool debit.pool

theorem normalizeConfig_windowed {name : String} {config : PoolConfig}
    (h : (normalizeConfig name config).predicate.isWindowed) : normalizeConfig name config = config := by
  unfold normalizeConfig at h ⊢
  split
  · next hcampaign =>
    rw [if_pos hcampaign] at h
    cases h
  · rfl

theorem timestamp_mono {now now' : Time} (h : now ≤ now') : timestamp now ≤ timestamp now' := by
  have hpos : (0 : Int) < nanosPerMilli := by decide
  exact Int.mul_le_mul_of_nonneg_right (Int.ediv_le_ediv hpos h) hpos.le

theorem Books.wait {pools : Dict String PoolConfig} {time now : Time} {engine : LeaseEngine}
    (h : engine.Books pools time) (hle : time ≤ now) : engine.Books pools now :=
  { h with stamps := fun debit hdebit => Int.le_trans (h.stamps debit hdebit) (timestamp_mono hle) }

/-- The line that a move leaves in the log, if any, is one of a request that fits. -/
theorem Account.lines {now : Time} {a b : LeaseEngine} (h : Account now a b)
    (hevents : ∃ log, a.events = some log ∧ Readable log) :
    (∃ log, b.events = some log ∧ Readable log) ∧
      (b.logLines = a.logLines ∨ ∃ ticketId request, Offered now a ticketId request ∧
        b.logLines = a.logLines ++ [a.grantEvent ticketId request now]) := by
  obtain ⟨log, hlog, hread⟩ := hevents
  have hgrant : ∀ {ticketId request}, Offered now a ticketId request →
      b.events = (a.logGrant ticketId request now).events →
      (∃ log, b.events = some log ∧ Readable log) ∧
        (b.logLines = a.logLines ∨ ∃ ticketId request, Offered now a ticketId request ∧
          b.logLines = a.logLines ++ [a.grantEvent ticketId request now]) := by
    intro ticketId request offered hb
    obtain ⟨log', hlog', hlines, -⟩ := logGrant_events hlog ticketId request now
    rw [hlog'] at hb
    rw [logLines_eq hlog, logLines_eq hb]
    rcases hlines with hlines | hlines
    · exact ⟨⟨log', hb, fun line hline => hread line (hlines ▸ hline)⟩, .inl hlines⟩
    · refine ⟨⟨log', hb, fun line hline => ?_⟩, .inr ⟨ticketId, request, offered, hlines⟩⟩
      rw [hlines] at hline
      rcases List.mem_append.mp hline with hline | hline
      · exact hread line hline
      · rw [List.mem_singleton.mp hline]
        rfl
  cases h with
  | prune hp => exact ⟨⟨log, hp.events_eq.trans hlog, hread⟩, .inl (logLines_congr hp.events_eq)⟩
  | quiet events keys trace pools =>
    exact ⟨⟨log, events.trans hlog, hread⟩, .inl (logLines_congr events)⟩
  | charge offered logged events => exact hgrant offered events
  | attempt offered failed events => exact hgrant offered events

/-- A log of whole lines stays one. -/
theorem Account.whole {now : Time} {a b : LeaseEngine} (h : Account now a b) {log : LeaseEventLog}
    (hlog : a.events = some log) (hwhole : log.Whole) :
    ∃ log', b.events = some log' ∧ log'.Whole := by
  have hgrant : ∀ {ticketId request}, b.events = (a.logGrant ticketId request now).events →
      ∃ log', b.events = some log' ∧ log'.Whole := by
    intro ticketId request hb
    obtain ⟨log', hlog', -, -, hkept, -⟩ := logGrant_events hlog ticketId request now
    exact ⟨log', hb.trans hlog', hkept hwhole⟩
  cases h with
  | prune hp => exact ⟨log, hp.events_eq.trans hlog, hwhole⟩
  | quiet events => exact ⟨log, events.trans hlog, hwhole⟩
  | charge offered logged events => exact hgrant events
  | attempt offered failed events => exact hgrant events

/-- A windowed pool after a move was there before it, with the same configuration. -/
theorem Account.config {now : Time} {a b : LeaseEngine} (h : Account now a b) {pool : String}
    {state : RuntimePool} (hs : b.pools.get? pool = some state)
    (hwindowed : state.config.predicate.isWindowed) :
    ∃ old, a.pools.get? pool = some old ∧ state.config = old.config := by
  cases h with
  | prune hp =>
    obtain ⟨old, hold, heq⟩ := hp.get?_inv hs
    exact ⟨old, hold, by rcases heq with rfl | rfl <;> simp⟩
  | quiet events keys trace pools =>
    obtain ⟨old, hold, hconfig, -⟩ := pools pool state hs hwindowed
    exact ⟨old, hold, hconfig⟩
  | charge offered logged events keys trace pools =>
    rw [pools, get?_pools_granted, Option.map_eq_some_iff] at hs
    obtain ⟨old, hold, rfl⟩ := hs
    exact ⟨old, hold, rfl⟩
  | attempt offered failed events keys trace pools => exact ⟨state, pools ▸ hs, rfl⟩

/-- The debits that a scan counts for the line of a grant. -/
theorem grantEvent_added (a : LeaseEngine) (ticketId : String) (request : LeaseRequest) (now : Time)
    (charges : Charges) :
    ∃ added, (charges.add (a.grantEvent ticketId request now)).debits = charges.debits ++ added ∧
      ∀ debit ∈ added, debit ∈ a.debitsFor request now := by
  obtain ⟨added, hadded, hkind⟩ := charges.add_debits (a.grantEvent ticketId request now)
  refine ⟨added, hadded, fun debit hdebit => ?_⟩
  rcases hkind with rfl | ⟨grant, hevent⟩
  · cases hdebit
  · obtain ⟨-, rfl⟩ := LeaseEventKind.granted.inj hevent
    exact hdebit

theorem Books.step {base : Nat} {pools : Dict String PoolConfig} {now : Time}
    {own : LeaseRequest → Prop} {a b : LeaseEngine} (h : a.Books pools now)
    (hmove : Move base now own a b) : b.Books pools now := by
  have haccount := hmove.account h.queue
  obtain ⟨hevents, hlines⟩ := haccount.lines h.events
  have hwindows : ∀ {pool}, a.isWindowedPool pool → b.isWindowedPool pool := by
    intro pool hwindowed
    obtain ⟨state, window, hs, hwindow⟩ := isWindowedPool_iff.mp hwindowed
    obtain ⟨state', hs', hconfig⟩ := hmove.get?_config hs
    exact isWindowedPool_iff.mpr ⟨state', window, hs', hconfig ▸ hwindow⟩
  have hcharges : (∀ debit ∈ b.charges.debits, debit.admittedAt ≤ timestamp now) ∧
      Stamped b.charges.debits ∧ ∀ debit ∈ b.charges.debits, b.isWindowedPool debit.pool := by
    rcases hlines with hlines | ⟨ticketId, request, offered, hlines⟩
    · rw [charges, hlines]
      exact ⟨h.stamps, h.stamped, fun debit hdebit => hwindows (h.owned debit hdebit)⟩
    · rw [charges, hlines, chargesOf_append]
      obtain ⟨added, hadded, hmem⟩ := a.grantEvent_added ticketId request now (chargesOf a.logLines)
      have hstamp : ∀ debit ∈ added, debit.admittedAt = timestamp now := by
        intro debit hdebit
        exact (mem_debitsFor (hmem debit hdebit)).2.2.2.1
      rw [hadded]
      refine ⟨fun debit hdebit => ?_, ?_, fun debit hdebit => ?_⟩
      · rcases List.mem_append.mp hdebit with hdebit | hdebit
        · exact h.stamps debit hdebit
        · exact (hstamp debit hdebit).le
      · refine List.pairwise_append.mpr ⟨h.stamped, ?_, fun old hold new hnew => ?_⟩
        · refine List.Pairwise.imp_of_mem ?_ (List.pairwise_of_forall fun _ _ => trivial)
          intro first second hfirst hsecond _
          rw [hstamp first hfirst, hstamp second hsecond]
        · rw [hstamp new hnew]
          exact h.stamps old hold
      · rcases List.mem_append.mp hdebit with hdebit | hdebit
        · exact hwindows (h.owned debit hdebit)
        · exact hwindows (mem_debitsFor (hmem debit hdebit)).2.2.1
  refine ⟨hmove.ticketInv h.tickets, hmove.queueOk h.queue, hevents, ?_, ?_, hcharges.1,
    hcharges.2.1, hcharges.2.2⟩
  · intro pool state hs hwindowed
    obtain ⟨old, hold, hconfig⟩ := haccount.config hs hwindowed
    rw [hconfig] at hwindowed ⊢
    exact h.config pool old hold hwindowed
  · intro pool config hconfig
    obtain ⟨old, hold, heq⟩ := h.opened pool config hconfig
    obtain ⟨state, hs, heq'⟩ := hmove.get?_config hold
    exact ⟨state, hs, heq'.trans heq⟩

end LeaseEngine

section Start

variable {epoch yieldGrace agingThreshold : Nat} {pools : Dict String PoolConfig}
  {fates : List AppendFate} {engine : LeaseEngine}

theorem LeaseEngine.new_charges
    (h : newWithAgingThreshold epoch yieldGrace agingThreshold pools (some { fates }) = .ok engine) :
    engine.charges = {} := by
  obtain ⟨-, rfl⟩ := new_eq h
  rfl

theorem LeaseEngine.new_books
    (h : newWithAgingThreshold epoch yieldGrace agingThreshold pools (some { fates }) = .ok engine)
    (now : Time) : engine.Books pools now := by
  have hcharges := new_charges h
  have htickets := new_ticketInv h
  obtain ⟨-, rfl⟩ := new_eq h
  refine ⟨htickets, by simp [QueueOk], ⟨{ fates }, rfl, by simp [Readable]⟩, ?_, ?_, by simp [hcharges],
    by simp [hcharges, Stamped], by simp [hcharges]⟩
  · intro pool state hs hwindowed
    rw [Dict.get?_mapVals, Option.map_eq_some_iff] at hs
    obtain ⟨config, hconfig, rfl⟩ := hs
    exact hconfig.trans (congrArg some (normalizeConfig_windowed hwindowed).symm)
  · intro pool config hconfig
    refine ⟨RuntimePool.new (normalizeConfig pool config), ?_, rfl⟩
    rw [Dict.get?_mapVals, hconfig]
    rfl

end Start

/-- The accounts after a restart are those of the log. -/
theorem LeaseEngine.Rebuilt.charges_eq {pools : Dict String PoolConfig} {log : LeaseEventLog}
    {snapshot : WindowUsageSnapshot} {old engine : LeaseEngine}
    (h : engine.Rebuilt pools log snapshot) (hlog : old.events = some log) :
    engine.charges = old.charges := by
  rw [charges, charges, logLines_eq h.events, logLines_eq hlog]

/-- A windowed pool after a restart is a configured one, with the rebuilt queue. -/
theorem LeaseEngine.Rebuilt.windowed {pools : Dict String PoolConfig} {log : LeaseEventLog}
    {snapshot : WindowUsageSnapshot} {engine : LeaseEngine} (h : engine.Rebuilt pools log snapshot)
    {pool : String} {state : RuntimePool} (hs : engine.pools.get? pool = some state)
    (hwindowed : state.config.predicate.isWindowed) :
    pools.get? pool = some state.config ∧ state.debits = (snapshot.debits.get? pool).getD [] := by
  rw [h.pools, Option.map_eq_some_iff] at hs
  obtain ⟨config, hconfig, rfl⟩ := hs
  have hsame := normalizeConfig_windowed hwindowed
  refine ⟨?_, rfl⟩
  rcases foldl_reopenCampaignPools_reopens log.lines pools pool with heq | ⟨-, -, hsome⟩
  · rw [hsame, ← heq]
    exact hconfig
  · rw [hsome] at hconfig
    cases hconfig
    rw [hsame] at hwindowed
    cases hwindowed

/-- The configuration of a windowed pool is in normal form. -/
theorem LeaseEngine.Books.normal {pools : Dict String PoolConfig} {now : Time} {engine : LeaseEngine}
    (h : engine.Books pools now) {pool : String} {state : RuntimePool}
    (hs : engine.pools.get? pool = some state) (hwindowed : state.config.predicate.isWindowed) :
    normalizeConfig pool state.config = state.config := by
  obtain ⟨state', hs', hconfig⟩ := h.opened pool state.config (h.config pool state hs hwindowed)
  rw [hs] at hs'
  cases hs'
  exact hconfig.symm

theorem LeaseEngine.Books.restart {pools : Dict String PoolConfig} {log : LeaseEventLog} {now : Time}
    {snapshot : WindowUsageSnapshot} {old engine : LeaseEngine} (h : old.Books pools now)
    (hlog : old.events = some log) (hread : Readable log) (hrebuilt : engine.Rebuilt pools log snapshot) :
    engine.Books pools now := by
  have hcharges := hrebuilt.charges_eq hlog
  have hopened : ∀ pool config, pools.get? pool = some config → ∃ state,
      engine.pools.get? pool = some state ∧ state.config = normalizeConfig pool config := by
    intro pool config hconfig
    rcases foldl_reopenCampaignPools_reopens log.lines pools pool with heq | ⟨hnone, -, -⟩
    · refine ⟨{ config := normalizeConfig pool config, debits := (snapshot.debits.get? pool).getD [] },
        ?_, rfl⟩
      rw [hrebuilt.pools, heq, hconfig]
      rfl
    · rw [hnone] at hconfig
      cases hconfig
  refine ⟨hrebuilt.ticketInv, ?_, ⟨log, hrebuilt.events, hread⟩, ?_, hopened, hcharges ▸ h.stamps,
    hcharges ▸ h.stamped, ?_⟩
  · intro p hp
    rw [hrebuilt.fresh.2.1] at hp
    cases hp
  · intro pool state hs hwindowed
    exact (hrebuilt.windowed hs hwindowed).1
  · intro debit hdebit
    rw [hcharges] at hdebit
    obtain ⟨before, window, hbefore, hwindow⟩ := isWindowedPool_iff.mp (h.owned debit hdebit)
    have hwindowed : before.config.predicate.isWindowed := by
      rw [hwindow]
      rfl
    obtain ⟨state, hs, hconfig⟩ := hopened debit.pool before.config
      (h.config debit.pool before hbefore hwindowed)
    rw [h.normal hbefore hwindowed] at hconfig
    exact isWindowedPool_iff.mpr ⟨state, window, hs, hconfig ▸ hwindow⟩

theorem World.Reached.books {pools : Dict String PoolConfig} {fates : List AppendFate} {time : Time}
    {world : World} (h : World.Reached pools fates time world) : world.engine.Books pools time := by
  refine h.invariant (P := fun time world => world.engine.Books pools time) ?_ ?_ ?_ ?_
  · intro epoch yieldGrace agingThreshold now engine hnew
    exact new_books hnew now
  · intro time now world hle hbooks
    exact hbooks.wait hle
  · intro base now own engine world hmove hbooks
    exact hbooks.step hmove
  · intro now world log engine epoch yieldGrace agingThreshold witnessRecords hbooks hlog _ hdurable
    obtain ⟨log', hlog', hread⟩ := hbooks.events
    rw [hlog] at hlog'
    cases hlog'
    obtain ⟨-, -, snapshot, -, hrebuilt⟩ := fromDurable_rebuilt hread hdurable
    exact hbooks.restart hlog hread hrebuilt

/-- As long as the appends leave whole lines or nothing, so does the log. -/
theorem World.Reached.whole {pools : Dict String PoolConfig} {fates : List AppendFate} {time : Time}
    {world : World} (h : World.Reached pools fates time world) (hwhole : ∀ fate ∈ fates, fate.whole) :
    ∃ log, world.engine.events = some log ∧ log.Whole := by
  suffices hall : world.engine.Books pools time ∧
      ∃ log, world.engine.events = some log ∧ log.Whole from hall.2
  refine h.invariant (P := fun time world => world.engine.Books pools time ∧
    ∃ log, world.engine.events = some log ∧ log.Whole) ?_ ?_ ?_ ?_
  · intro epoch yieldGrace agingThreshold now engine hnew
    refine ⟨new_books hnew now, ?_⟩
    obtain ⟨-, rfl⟩ := new_eq hnew
    exact ⟨{ fates }, rfl, rfl, rfl, hwhole⟩
  · rintro time now world hle ⟨hbooks, hlog⟩
    exact ⟨hbooks.wait hle, hlog⟩
  · rintro base now own engine world hmove ⟨hbooks, log, hlog, hkept⟩
    exact ⟨hbooks.step hmove, (hmove.account hbooks.queue).whole hlog hkept⟩
  · rintro now world log engine epoch yieldGrace agingThreshold witnessRecords ⟨hbooks, log', hlog', hkept⟩
      hlog _ hdurable
    obtain ⟨log'', hlog'', hread⟩ := hbooks.events
    rw [hlog] at hlog' hlog''
    cases hlog'
    cases hlog''
    obtain ⟨-, -, snapshot, -, hrebuilt⟩ := fromDurable_rebuilt hread hdurable
    exact ⟨hbooks.restart hlog hread hrebuilt, log, hrebuilt.events, hkept⟩

/-! ## The log covers what the engine has debited -/

/-- The admission key that an entry of the history charges. -/
def TraceEntry.chargedKey : TraceEntry → Option String
  | .granted _ _ request debits _ => if debits.isEmpty then none else request.admissionKey
  | _ => none

/-- The admission keys that the engines have charged, newest first. -/
def chargedKeys (history : List TraceEntry) : List String :=
  history.filterMap TraceEntry.chargedKey

/-- A grant is charged although the log holds a line for its lease or a charge of its key. -/
def TraceEntry.retried : TraceEntry → Bool
  | .granted _ ticketId request debits earlier => !debits.isEmpty && earlier.any fun line =>
      decide (line.grantedId = some ticketId) ||
        (line.chargedKey.isSome && decide (line.chargedKey = request.admissionKey))
  | _ => false

/-- No grant of the history was charged again after an attempt that the log kept. -/
def World.NoRetry (world : World) : Prop := ∀ entry ∈ world.history, entry.retried = false

namespace LeaseEngine

structure Covered (engine : LeaseEngine) (past : List TraceEntry) : Prop where
  queues : ∀ pool state, engine.pools.get? pool = some state → state.config.predicate.isWindowed →
    state.debits.Sublist (debitsOf pool engine.charges.debits)
  keys : engine.debitedAdmissions ⊆ engine.charges.keys
  history : ∀ key ∈ chargedKeys (engine.trace ++ past), key ∈ engine.debitedAdmissions
  once : (chargedKeys (engine.trace ++ past)).Nodup

/-- The admission keys after a grant. -/
theorem debitedAdmissions_granted (engine : LeaseEngine) (ticketId : String) (request : LeaseRequest)
    (now : Time) : (engine.granted ticketId request now).debitedAdmissions =
      (chargedKey (engine.grantFor ticketId request now) (engine.debitsFor request now)).elim
        engine.debitedAdmissions (insert · engine.debitedAdmissions) := by
  unfold granted commitGrant record
  dsimp only
  cases chargedKey (engine.grantFor ticketId request now) (engine.debitsFor request now) with
  | none => rfl
  | some key => rfl

theorem chargedKeys_quiet {entries trace : List TraceEntry} (h : ∀ entry ∈ entries, entry.quiet) :
    chargedKeys (entries ++ trace) = chargedKeys trace := by
  have hnone : entries.filterMap TraceEntry.chargedKey = [] := by
    rw [List.filterMap_eq_nil_iff]
    intro entry hentry
    have hquiet := h entry hentry
    cases entry with
    | granted => cases hquiet
    | _ => rfl
  rw [chargedKeys, List.filterMap_append, hnone, List.nil_append]
  rfl

/-- The charges of a log only grow. -/
theorem Account.charges_mono {now : Time} {a b : LeaseEngine} (h : Account now a b)
    (hevents : ∃ log, a.events = some log ∧ Readable log) :
    a.charges.keys ⊆ b.charges.keys ∧ ∃ added, b.charges.debits = a.charges.debits ++ added := by
  rcases (h.lines hevents).2 with hlines | ⟨ticketId, request, -, hlines⟩
  · rw [charges, charges, hlines]
    exact ⟨subset_rfl, [], by simp⟩
  · rw [charges, charges, hlines, chargesOf_append]
    obtain ⟨added, hadded, -⟩ := a.grantEvent_added ticketId request now (chargesOf a.logLines)
    exact ⟨Charges.keys_subset_add _ _, added, hadded⟩

/-- The key that the line of a grant charges has not been debited. -/
theorem chargedKey_debitsFor {a : LeaseEngine} {ticketId : String} {request : LeaseRequest}
    {now : Time} {key : String}
    (h : chargedKey (a.grantFor ticketId request now) (a.debitsFor request now) = some key) :
    request.admissionKey = some key ∧ key ∉ a.debitedAdmissions := by
  unfold chargedKey at h
  split at h
  · cases h
  next hdebits =>
  have hkey : request.admissionKey = some key := h
  refine ⟨hkey, fun hmem => hdebits ?_⟩
  have hdebited : a.alreadyDebited request.admissionKey = true := by
    rw [hkey]
    exact decide_eq_true hmem
  simp [debitsFor, hdebited]

/-- The line of a grant that is not retried is counted in full, unless it has no debits. -/
theorem charges_granted {a : LeaseEngine} {ticketId : String} {request : LeaseRequest} {now : Time}
    (h : (TraceEntry.granted now ticketId request (a.debitsFor request now)
      a.logLines).retried = false) :
    (a.charges.add (a.grantEvent ticketId request now)).debits =
        a.charges.debits ++ a.debitsFor request now ∧
      ∀ key, chargedKey (a.grantFor ticketId request now) (a.debitsFor request now) = some key →
        key ∈ (a.charges.add (a.grantEvent ticketId request now)).keys := by
  by_cases hfree : a.debitsFor request now = []
  · have hevent : (a.grantEvent ticketId request now).event =
        .granted (a.grantFor ticketId request now) [] := by
      rw [← hfree]
      rfl
    obtain ⟨-, hdebits⟩ := a.charges.add_free hevent
    refine ⟨by rw [hdebits, hfree, List.append_nil], fun key hkey => ?_⟩
    rw [hfree] at hkey
    cases hkey
  · have hlines : ∀ line ∈ a.logLines, line.grantedId ≠ some ticketId ∧
        ∀ key, line.chargedKey = some key → request.admissionKey ≠ some key := by
      intro line hline
      simp only [TraceEntry.retried, Bool.and_eq_false_iff, Bool.not_eq_false', List.isEmpty_iff,
        hfree, false_or, List.any_eq_false, Bool.or_eq_true, decide_eq_true_eq, not_or,
        Bool.and_eq_true, not_and] at h
      refine ⟨(h line hline).1, fun key hkey hsame => ?_⟩
      exact (h line hline).2 (by rw [hkey]; rfl) (hkey.trans hsame.symm)
    have hid : (a.grantFor ticketId request now).leaseId ∉ a.charges.ids := by
      intro hmem
      obtain ⟨line, hline, hgrants⟩ := mem_chargesOf_ids hmem
      exact (hlines line hline).1 hgrants
    have hkeys : ∀ key, chargedKey (a.grantFor ticketId request now) (a.debitsFor request now) =
        some key → key ∉ a.charges.keys := by
      intro key hkey hmem
      obtain ⟨line, hline, hcharges⟩ := mem_chargesOf_keys hmem
      exact (hlines line hline).2 key hcharges (chargedKey_debitsFor hkey).1
    have hadd : a.charges.add (a.grantEvent ticketId request now) = _ :=
      Charges.add_fresh rfl hid hkeys
    rw [hadd]
    refine ⟨rfl, fun key hkey => ?_⟩
    simp only [hkey]
    exact Finset.mem_insert_self key _

/-- The queues stay covered where a move only prunes or leaves them alone. -/
theorem Covered.queues_of_sublist {a b : LeaseEngine} {past : List TraceEntry} (h : a.Covered past)
    (hgrows : ∃ added, b.charges.debits = a.charges.debits ++ added)
    (hqueue : ∀ pool state, b.pools.get? pool = some state → state.config.predicate.isWindowed →
      ∃ old, a.pools.get? pool = some old ∧ state.config = old.config ∧
        state.debits.Sublist old.debits) {pool : String} {state : RuntimePool}
    (hs : b.pools.get? pool = some state) (hwindowed : state.config.predicate.isWindowed) :
    state.debits.Sublist (debitsOf pool b.charges.debits) := by
  obtain ⟨old, hold, hconfig, hsub⟩ := hqueue pool state hs hwindowed
  obtain ⟨added, hadded⟩ := hgrows
  rw [hadded, debitsOf_append]
  have hcovered := h.queues pool old hold (hconfig ▸ hwindowed)
  exact (hsub.trans hcovered).trans (List.sublist_append_left ..)

theorem queues_pruneOf {now : Time} {a b : LeaseEngine} (hp : PruneOf now a b) (pool : String)
    (state : RuntimePool) (hs : b.pools.get? pool = some state) :
    ∃ old, a.pools.get? pool = some old ∧ state.config = old.config ∧
      state.debits.Sublist old.debits := by
  obtain ⟨old, hold, heq⟩ := hp.get?_inv hs
  refine ⟨old, hold, ?_⟩
  rcases heq with rfl | rfl
  · exact ⟨rfl, .refl _⟩
  · exact ⟨RuntimePool.prune_config .., RuntimePool.prune_debits_sublist ..⟩

theorem Covered.account {now : Time} {a b : LeaseEngine} {past : List TraceEntry}
    (h : a.Covered past) (haccount : Account now a b)
    (hevents : ∃ log, a.events = some log ∧ Readable log)
    (hretry : ∀ entry ∈ b.trace, entry.retried = false) : b.Covered past := by
  obtain ⟨hkeys, hgrows⟩ := haccount.charges_mono hevents
  cases haccount with
  | prune hp =>
    refine ⟨fun pool state hs hwindowed => ?_, ?_, ?_, ?_⟩
    · exact h.queues_of_sublist hgrows (fun pool state hs _ => queues_pruneOf hp pool state hs) hs hwindowed
    · rw [hp.debitedAdmissions_eq]
      exact h.keys.trans hkeys
    · rw [hp.trace_eq, hp.debitedAdmissions_eq]
      exact h.history
    · rw [hp.trace_eq]
      exact h.once
  | quiet events keys trace pools =>
    obtain ⟨entries, htrace, hquiet⟩ := trace
    have hcharged : chargedKeys (b.trace ++ past) = chargedKeys (a.trace ++ past) := by
      rw [htrace, List.append_assoc, chargedKeys_quiet hquiet]
    refine ⟨fun pool state hs hwindowed => ?_, ?_, ?_, ?_⟩
    · refine h.queues_of_sublist hgrows (fun pool state hs hwindowed => ?_) hs hwindowed
      obtain ⟨old, hold, hconfig, hdebits⟩ := pools pool state hs hwindowed
      exact ⟨old, hold, hconfig, by rw [hdebits]⟩
    · rw [keys]
      exact h.keys.trans hkeys
    · rw [hcharged, keys]
      exact h.history
    · rw [hcharged]
      exact h.once
  | attempt offered failed events keys trace pools =>
    refine ⟨fun pool state hs hwindowed => ?_, ?_, ?_, ?_⟩
    · refine h.queues_of_sublist hgrows (fun pool state hs _ => ?_) hs hwindowed
      exact ⟨state, pools ▸ hs, rfl, .refl _⟩
    · rw [keys]
      exact h.keys.trans hkeys
    · rw [trace, keys]
      exact h.history
    · rw [trace]
      exact h.once
  | @charge ticketId request offered logged events keys trace pools held =>
    obtain ⟨log, hlog, -⟩ := hevents
    have hlines : b.logLines = a.logLines ++ [a.grantEvent ticketId request now] := by
      obtain ⟨log', hlog', -, hwritten, -⟩ := logGrant_events hlog ticketId request now
      rw [logLines_eq (events.trans hlog'), logLines_eq hlog]
      exact hwritten logged
    have hcharges : b.charges = a.charges.add (a.grantEvent ticketId request now) := by
      rw [charges, hlines, chargesOf_append]
      rfl
    have hentry : (TraceEntry.granted now ticketId request (a.debitsFor request now)
        a.logLines).retried = false := hretry _ (by rw [trace]; exact List.mem_cons_self)
    obtain ⟨hdebits, hcharged⟩ := charges_granted hentry
    have hadmissions : b.debitedAdmissions =
        (chargedKey (a.grantFor ticketId request now) (a.debitsFor request now)).elim
          a.debitedAdmissions (insert · a.debitedAdmissions) := by
      rw [keys, debitedAdmissions_granted]
    have hhistory : chargedKeys (b.trace ++ past) =
        (chargedKey (a.grantFor ticketId request now) (a.debitsFor request now)).toList ++
          chargedKeys (a.trace ++ past) := by
      have hnew : (TraceEntry.granted now ticketId request (a.debitsFor request now)
          a.logLines).chargedKey =
        chargedKey (a.grantFor ticketId request now) (a.debitsFor request now) := rfl
      rw [trace, List.cons_append, chargedKeys, List.filterMap_cons, hnew]
      cases chargedKey (a.grantFor ticketId request now) (a.debitsFor request now) <;> rfl
    constructor
    · intro pool state hs hwindowed
      rw [pools, get?_pools_granted, Option.map_eq_some_iff] at hs
      obtain ⟨old, hold, rfl⟩ := hs
      rw [hcharges, hdebits, debitsOf_append]
      exact (h.queues pool old hold hwindowed).append (.refl _)
    · rw [hadmissions]
      cases hkey : chargedKey (a.grantFor ticketId request now) (a.debitsFor request now) with
      | none => exact h.keys.trans hkeys
      | some key =>
        refine Finset.insert_subset ?_ (h.keys.trans hkeys)
        rw [hcharges]
        exact hcharged key hkey
    · rw [hhistory, hadmissions]
      intro key hmem
      cases hkey : chargedKey (a.grantFor ticketId request now) (a.debitsFor request now) with
      | none =>
        rw [hkey] at hmem
        exact h.history key hmem
      | some new =>
        rw [hkey] at hmem
        rcases List.mem_cons.mp hmem with rfl | hmem
        · exact Finset.mem_insert_self key _
        · exact Finset.mem_insert_of_mem (h.history key hmem)
    · rw [hhistory]
      cases hkey : chargedKey (a.grantFor ticketId request now) (a.debitsFor request now) with
      | none => exact h.once
      | some key =>
        refine List.nodup_cons.mpr ⟨fun hmem => ?_, h.once⟩
        exact (chargedKey_debitsFor hkey).2 (h.history key hmem)

/-- The rebuilt queues are part of the log. -/
theorem liveDebits_sublist (pools : Dict String PoolConfig) (now : Time) (pool : String)
    (debits : List BudgetDebit) :
    (liveDebits pools now pool debits).Sublist (debitsOf pool debits) := by
  have hfilter : liveDebits pools now pool debits =
      (debitsOf pool debits).filter (InWindow pools now) := by
    rw [liveDebits, debitsOf, List.filter_filter]
    apply List.filter_congr
    intro debit _
    exact Bool.and_comm ..
  rw [hfilter]
  exact List.filter_sublist

theorem Covered.restart {pools : Dict String PoolConfig} {now : Time} {log : LeaseEventLog}
    {snapshot : WindowUsageSnapshot} {old engine : LeaseEngine} {past : List TraceEntry}
    (h : old.Covered past) (hlog : old.events = some log) (hof : snapshot.Of pools now log.lines)
    (hrebuilt : engine.Rebuilt pools log snapshot) : engine.Covered (old.trace ++ past) := by
  have hcharges := hrebuilt.charges_eq hlog
  have hlines : chargesOf log.lines = old.charges := by rw [charges, logLines_eq hlog]
  have hkeys : engine.debitedAdmissions = old.charges.keys := by
    rw [hrebuilt.keys, hof.keys, hlines]
  refine ⟨fun pool state hs hwindowed => ?_, ?_, ?_, ?_⟩
  · rw [(hrebuilt.windowed hs hwindowed).2, hof.debits, hcharges, hlines]
    exact liveDebits_sublist ..
  · rw [hkeys, hcharges]
  · rw [hrebuilt.fresh.2.2.1, hkeys, List.nil_append]
    exact fun key hkey => h.keys (h.history key hkey)
  · rw [hrebuilt.fresh.2.2.1, List.nil_append]
    exact h.once

end LeaseEngine

/-- As long as no grant is retried, the log covers what the engines have debited. -/
theorem World.Reached.covered {pools : Dict String PoolConfig} {fates : List AppendFate}
    {time : Time} {world : World} (h : World.Reached pools fates time world)
    (hretry : world.NoRetry) : world.engine.Covered world.past := by
  suffices hall : world.engine.Books pools time ∧
      (world.NoRetry → world.engine.Covered world.past) from hall.2 hretry
  clear hretry
  refine h.invariant (P := fun time world => world.engine.Books pools time ∧
    (world.NoRetry → world.engine.Covered world.past)) ?_ ?_ ?_ ?_
  · intro epoch yieldGrace agingThreshold now engine hnew
    refine ⟨new_books hnew now, fun _ => ?_⟩
    obtain ⟨-, rfl⟩ := new_eq hnew
    refine ⟨fun pool state hs _ => ?_, Finset.empty_subset _, by simp [chargedKeys],
      by simp [chargedKeys]⟩
    rw [Dict.get?_mapVals, Option.map_eq_some_iff] at hs
    obtain ⟨config, hconfig, rfl⟩ := hs
    exact List.nil_sublist _
  · rintro time now world hle ⟨hbooks, hcovered⟩
    exact ⟨hbooks.wait hle, hcovered⟩
  · rintro base now own engine world hmove ⟨hbooks, hcovered⟩
    refine ⟨hbooks.step hmove, fun hretry => ?_⟩
    have haccount := hmove.account hbooks.queue
    have hkept : ∀ entry ∈ world.engine.trace, entry ∈ engine.trace := by
      intro entry hentry
      cases haccount with
      | prune hp => rw [hp.trace_eq]; exact hentry
      | quiet events keys trace pools =>
        obtain ⟨entries, htrace, -⟩ := trace
        rw [htrace]
        exact List.mem_append_right _ hentry
      | charge offered logged events keys trace =>
        rw [trace]
        exact List.mem_cons_of_mem _ hentry
      | attempt offered failed events keys trace => rw [trace]; exact hentry
    refine (hcovered fun entry hentry => hretry entry ?_).account haccount hbooks.events
      fun entry hentry => hretry entry (List.mem_append_left _ hentry)
    rcases List.mem_append.mp hentry with hentry | hentry
    · exact List.mem_append_left _ (hkept entry hentry)
    · exact List.mem_append_right _ hentry
  · rintro now world log engine epoch yieldGrace agingThreshold witnessRecords ⟨hbooks, hcovered⟩
      hlog _ hdurable
    obtain ⟨log', hlog', hread⟩ := hbooks.events
    rw [hlog] at hlog'
    cases hlog'
    obtain ⟨-, -, snapshot, hsnapshot, hrebuilt⟩ := fromDurable_rebuilt hread hdurable
    refine ⟨hbooks.restart hlog hread hrebuilt, fun hretry => ?_⟩
    have hold : world.NoRetry := fun entry hentry =>
      hretry entry (List.mem_append_right _ hentry)
    exact (hcovered hold).restart hlog (rebuildWindowUsage_of hread hsnapshot).2 hrebuilt

/-! ## The log accounts for just what the engine has debited -/

namespace LeaseEngine

/-- A ticket of this or an earlier epoch that does not wait. -/
def Spent (engine : LeaseEngine) (id : String) : Prop :=
  id ∉ engine.pendingIds ∧
    (engine.Issued id ∨ ∃ epoch sequence, epoch < engine.epoch ∧ id = leaseTicket epoch sequence)

structure Exact (now : Time) (engine : LeaseEngine) : Prop where
  honest : ∀ log, engine.events = some log → log.Honest
  spent : ∀ id ∈ engine.charges.ids, engine.Spent id
  keys : engine.debitedAdmissions = engine.charges.keys
  /-- The queue is what is left of the debits of the log after some have left the window. -/
  queues : ∀ pool state window, engine.pools.get? pool = some state →
    state.config.predicate = .windowedConsumption window → ∃ gone,
      debitsOf pool engine.charges.debits = gone ++ state.debits ∧
        ∀ debit ∈ gone, expired (window.windowSec * nanosPerSec) now debit
  budget : ∀ pool state window, engine.pools.get? pool = some state →
    state.config.predicate = .windowedConsumption window →
      usageOf state.debits ≤ min u64Max window.consumptionCap

theorem Spent.ne_nextTicket {engine : LeaseEngine} {id : String} (h : engine.Spent id) :
    id ≠ engine.nextTicket := by
  rintro rfl
  rcases h.2 with hissued | ⟨epoch, sequence, hlt, heq⟩
  · exact engine.not_issued_nextTicket hissued
  · have hepoch := leaseTicket_epoch heq
    omega

theorem Spent.move {base : Nat} {now : Time} {own : LeaseRequest → Prop} {a b : LeaseEngine}
    {id : String} (h : a.Spent id) (hmove : Move base now own a b) (hinv : b.TicketInv) :
    b.Spent id := by
  obtain ⟨hpending, hissued | ⟨epoch, sequence, hlt, rfl⟩⟩ := h
  · refine ⟨fun hmem => hpending (hmove.mem_pendingIds hissued hmem), .inl ?_⟩
    exact hmove.moves.issued hissued
  · rw [← hmove.epoch_eq] at hlt
    refine ⟨fun hmem => ?_, .inr ⟨epoch, sequence, hlt, rfl⟩⟩
    -- what waits was issued in this epoch
    have htickets : leaseTicket epoch sequence ∈ b.tickets :=
      List.mem_append_left _ (List.mem_append_right _ hmem)
    obtain ⟨n, -, -, heq⟩ := hinv.issued _ htickets
    have hepoch := leaseTicket_epoch heq
    omega

/-- A lease that is held has spent its ticket. -/
theorem TicketInv.spent {engine : LeaseEngine} (h : engine.TicketInv) {id : String}
    (hheld : ∃ held, engine.held.get? id = some held) : engine.Spent id := by
  have hkey : id ∈ engine.held.keys := (Dict.mem_keys_iff _).mpr hheld
  refine ⟨fun hmem => ?_, .inl ?_⟩
  · have hnodup := (List.nodup_append.mp h.nodup).1
    exact (List.nodup_append.mp hnodup).2.2 id hkey id hmem rfl
  · exact h.issued id (List.mem_append_left _ (List.mem_append_left _ hkey))

theorem Exact.wait {time now : Time} {engine : LeaseEngine} (h : engine.Exact time)
    (hle : time ≤ now) : engine.Exact now := by
  refine { h with queues := fun pool state window hs hwindow => ?_ }
  obtain ⟨gone, heq, hgone⟩ := h.queues pool state window hs hwindow
  exact ⟨gone, heq, fun debit hdebit => expired_mono hle (hgone debit hdebit)⟩

/-- The accounts do not change. -/
theorem Exact.same {base : Nat} {now : Time} {own : LeaseRequest → Prop} {a b : LeaseEngine}
    (h : a.Exact now) (hmove : Move base now own a b) (hinv : b.TicketInv)
    (hlines : b.logLines = a.logLines)
    (hhonest : ∀ log, b.events = some log → log.Honest)
    (hkeys : b.debitedAdmissions = a.debitedAdmissions)
    (hqueue : ∀ pool state, b.pools.get? pool = some state → state.config.predicate.isWindowed →
      ∃ old, a.pools.get? pool = some old ∧ state.config = old.config ∧
        (state.debits = old.debits ∨ state.debits = (old.prune now).debits)) : b.Exact now := by
  have hcharges : b.charges = a.charges := by rw [charges, charges, hlines]
  have hwindowed : ∀ {pool state window}, b.pools.get? pool = some state →
      state.config.predicate = .windowedConsumption window → ∃ old,
        a.pools.get? pool = some old ∧ old.config.predicate = .windowedConsumption window ∧
          (state.debits = old.debits ∨ state.debits = (old.prune now).debits) := by
    intro pool state window hs hwindow
    obtain ⟨old, hold, hconfig, hdebits⟩ := hqueue pool state hs (by rw [hwindow]; rfl)
    exact ⟨old, hold, hconfig ▸ hwindow, hdebits⟩
  refine ⟨hhonest, fun id hid => ?_, by rw [hkeys, hcharges, h.keys], ?_, ?_⟩
  · rw [hcharges] at hid
    exact (h.spent id hid).move hmove hinv
  · intro pool state window hs hwindow
    obtain ⟨old, hold, hwindow', hdebits⟩ := hwindowed hs hwindow
    obtain ⟨gone, heq, hgone⟩ := h.queues pool old window hold hwindow'
    rw [hcharges, heq]
    rcases hdebits with hdebits | hdebits
    · exact ⟨gone, by rw [hdebits], hgone⟩
    · rw [hdebits, (pruneDebits_windowed hwindow' now).1]
      split
      · refine ⟨gone ++ old.debits.takeWhile (expired (window.windowSec * nanosPerSec) now), ?_, ?_⟩
        · rw [List.append_assoc, List.takeWhile_append_dropWhile]
        · intro debit hdebit
          rcases List.mem_append.mp hdebit with hdebit | hdebit
          · exact hgone debit hdebit
          · exact List.mem_takeWhile_imp hdebit
      · exact ⟨gone, rfl, hgone⟩
  · intro pool state window hs hwindow
    obtain ⟨old, hold, hwindow', hdebits⟩ := hwindowed hs hwindow
    refine Nat.le_trans (usageOf_le_of_sublist ?_) (h.budget pool old window hold hwindow')
    rcases hdebits with hdebits | hdebits
    · rw [hdebits]
    · rw [hdebits]
      exact RuntimePool.prune_debits_sublist ..

/-- A grant is charged to the log and to the pools alike. -/
theorem Exact.charge {base : Nat} {now : Time} {own : LeaseRequest → Prop} {a b : LeaseEngine}
    (h : a.Exact now) (hmove : Move base now own a b) (hinv : b.TicketInv)
    (hevents : ∃ log, a.events = some log ∧ Readable log) {ticketId : String} {request : LeaseRequest}
    (offered : Offered now a ticketId request) (logged : a.Logged ticketId request now)
    (events : b.events = (a.logGrant ticketId request now).events)
    (keys : b.debitedAdmissions = (a.granted ticketId request now).debitedAdmissions)
    (pools : b.pools = (a.granted ticketId request now).pools)
    (held : ∃ held, b.held.get? ticketId = some held) : b.Exact now := by
  obtain ⟨log, hlog, -⟩ := hevents
  have hhonest := h.honest log hlog
  obtain ⟨log', hlog', -, hwritten, -, hkept⟩ := logGrant_events hlog ticketId request now
  have hb := events.trans hlog'
  have hlines : b.logLines = a.logLines ++ [a.grantEvent ticketId request now] := by
    rw [logLines_eq hb, logLines_eq hlog]
    exact hwritten logged
  have hid : (a.grantFor ticketId request now).leaseId ∉ a.charges.ids := by
    intro hmem
    have hspent : a.Spent ticketId := h.spent ticketId hmem
    rcases offered.ticket with hnext | hpending
    · exact hspent.ne_nextTicket hnext
    · exact hspent.1 hpending
  have hfresh : ∀ key, chargedKey (a.grantFor ticketId request now) (a.debitsFor request now) =
      some key → key ∉ a.charges.keys := by
    intro key hkey
    rw [← h.keys]
    exact (chargedKey_debitsFor hkey).2
  have hcharges : b.charges = a.charges.add (a.grantEvent ticketId request now) := by
    rw [charges, hlines, chargesOf_append]
    rfl
  have hadd : a.charges.add (a.grantEvent ticketId request now) = _ :=
    Charges.add_fresh rfl hid hfresh
  have hpool : ∀ {pool state}, b.pools.get? pool = some state → ∃ old,
      a.pools.get? pool = some old ∧ state.config = old.config ∧
        state.debits = old.debits ++ debitsOf pool (a.debitsFor request now) := by
    intro pool state hs
    rw [pools, get?_pools_granted, Option.map_eq_some_iff] at hs
    obtain ⟨old, hold, rfl⟩ := hs
    exact ⟨old, hold, rfl, rfl⟩
  constructor
  · intro log'' hlog''
    rw [hb] at hlog''
    cases hlog''
    exact (hkept hhonest).1
  · intro id hmem
    rw [hcharges, hadd] at hmem
    rcases Finset.mem_insert.mp hmem with rfl | hmem
    · exact hinv.spent held
    · exact (h.spent id hmem).move hmove hinv
  · rw [hcharges, hadd, keys]
    rw [debitedAdmissions_granted, h.keys]
    dsimp only
    cases chargedKey (a.grantFor ticketId request now) (a.debitsFor request now) with
    | none => rfl
    | some key => rfl
  · intro pool state window hs hwindow
    obtain ⟨old, hold, hconfig, hdebits⟩ := hpool hs
    rw [hconfig] at hwindow
    obtain ⟨gone, heq, hgone⟩ := h.queues pool old window hold hwindow
    refine ⟨gone, ?_, hgone⟩
    have hlog' : b.charges.debits = a.charges.debits ++ a.debitsFor request now := by
      rw [hcharges, hadd]
    rw [hlog', debitsOf_append, heq, hdebits, List.append_assoc]
  · intro pool state window hs hwindow
    obtain ⟨old, hold, hconfig, hdebits⟩ := hpool hs
    rw [hconfig] at hwindow
    rw [hdebits, usageOf_append]
    rcases a.debitsOf_debitsFor offered.nodup pool with hnone | ⟨hmem, hdebited, hone⟩
    · rw [hnone]
      exact h.budget pool old window hold hwindow
    · have hroom := (offered.fits.budget offered.pruned hmem hold hwindow).2
      rw [effectiveRequest, hdebited, if_neg Bool.false_ne_true] at hroom
      rw [hone]
      simpa [usageOf] using hroom

theorem Exact.step {base : Nat} {now : Time} {own : LeaseRequest → Prop} {a b : LeaseEngine}
    (h : a.Exact now) (hmove : Move base now own a b) (hinv : b.TicketInv) (hqueue : a.QueueOk)
    (hevents : ∃ log, a.events = some log ∧ Readable log) : b.Exact now := by
  cases hmove.account hqueue with
  | prune hp =>
    refine h.same hmove hinv (logLines_congr hp.events_eq) ?_ hp.debitedAdmissions_eq ?_
    · rw [hp.events_eq]
      exact h.honest
    · intro pool state hs _
      obtain ⟨old, hold, heq⟩ := hp.get?_inv hs
      refine ⟨old, hold, ?_⟩
      rcases heq with rfl | rfl
      · exact ⟨rfl, .inl rfl⟩
      · exact ⟨RuntimePool.prune_config .., .inr rfl⟩
  | quiet events keys trace pools =>
    refine h.same hmove hinv (logLines_congr events) (events ▸ h.honest) keys ?_
    intro pool state hs hwindowed
    obtain ⟨old, hold, hconfig, hdebits⟩ := pools pool state hs hwindowed
    exact ⟨old, hold, hconfig, .inl hdebits⟩
  | @attempt ticketId request offered failed events keys trace pools =>
    obtain ⟨log, hlog, -⟩ := hevents
    obtain ⟨log', hlog', -, -, -, hkept⟩ := logGrant_events hlog ticketId request now
    obtain ⟨hhonest', hlost⟩ := hkept (h.honest log hlog)
    have hb := events.trans hlog'
    refine h.same hmove hinv ?_ ?_ keys ?_
    · rw [logLines_eq hb, logLines_eq hlog]
      exact hlost failed
    · intro log'' hlog''
      rw [hb] at hlog''
      cases hlog''
      exact hhonest'
    · intro pool state hs _
      exact ⟨state, pools ▸ hs, rfl, .inl rfl⟩
  | charge offered logged events keys _ pools held =>
    exact h.charge hmove hinv hevents offered logged events keys pools held

/-- The stamps of one pool are in order. -/
theorem Books.stamped_debitsOf {pools : Dict String PoolConfig} {now : Time} {engine : LeaseEngine}
    (h : engine.Books pools now) (pool : String) :
    Stamped (debitsOf pool engine.charges.debits) :=
  List.Pairwise.sublist List.filter_sublist h.stamped

/-- A queue that the log covers holds, once it is pruned, the debits that are in the window. -/
theorem Books.prune_debits {pools : Dict String PoolConfig} {now : Time} {engine : LeaseEngine}
    (h : engine.Books pools now) (hends : WindowsEnd pools engine.charges.debits) {pool : String}
    {state : RuntimePool} {window : WindowedConsumptionPredicate}
    (hs : engine.pools.get? pool = some state)
    (hwindow : state.config.predicate = .windowedConsumption window)
    (hsub : state.debits.Sublist (debitsOf pool engine.charges.debits)) (now' : Time) :
    (state.prune now').debits =
      state.debits.filter fun debit => !expired (window.windowSec * nanosPerSec) now' debit := by
  have hstamped : Stamped state.debits := (h.stamped_debitsOf pool).sublist hsub
  have hconfig := h.config pool state hs (by rw [hwindow]; rfl)
  have hdated := fun debit (hdebit : debit ∈ state.debits) =>
    hends.dated hconfig hwindow (hsub.subset hdebit)
  rw [(pruneDebits_windowed hwindow now').1]
  split
  · exact hstamped.dropWhile_expired (fun debit hdebit => (hdated debit hdebit).2) now'
  · next hlong =>
    have hempty : state.debits = [] := by
      rw [List.eq_nil_iff_forall_not_mem]
      intro debit hdebit
      exact hlong (hdated debit hdebit).1
    rw [hempty]
    rfl

/-- The scan of the log finds the pruned queue. -/
theorem Exact.live {pools : Dict String PoolConfig} {now : Time} {engine : LeaseEngine}
    (h : engine.Exact now) (hbooks : engine.Books pools now)
    (hends : WindowsEnd pools engine.charges.debits) {pool : String} {state : RuntimePool}
    {window : WindowedConsumptionPredicate} (hs : engine.pools.get? pool = some state)
    (hwindow : state.config.predicate = .windowedConsumption window) :
    liveDebits pools now pool engine.charges.debits = (state.prune now).debits := by
  obtain ⟨gone, heq, hgone⟩ := h.queues pool state window hs hwindow
  have hconfig := hbooks.config pool state hs (by rw [hwindow]; rfl)
  have hsub : state.debits.Sublist (debitsOf pool engine.charges.debits) := by
    rw [heq]
    exact List.sublist_append_right ..
  have hnone : (gone.filter fun debit => !expired (window.windowSec * nanosPerSec) now debit) = [] := by
    rw [List.filter_eq_nil_iff]
    intro debit hdebit
    simp [hgone debit hdebit]
  rw [hbooks.prune_debits hends hs hwindow hsub, liveDebits_eq hconfig hwindow now hends, heq,
    List.filter_append, hnone, List.nil_append]

theorem Exact.restart {pools : Dict String PoolConfig} {now : Time} {log : LeaseEventLog}
    {snapshot : WindowUsageSnapshot} {old engine : LeaseEngine} (h : old.Exact now)
    (hbooks : old.Books pools now) (hlog : old.events = some log) (hread : Readable log)
    (hnext : old.epoch < engine.epoch) (hof : snapshot.Of pools now log.lines)
    (hrebuilt : engine.Rebuilt pools log snapshot) : engine.Exact now := by
  have hcharges := hrebuilt.charges_eq hlog
  have hlines : chargesOf log.lines = old.charges := by rw [charges, logLines_eq hlog]
  have hends : WindowsEnd pools old.charges.debits := hlines ▸ hof.ends
  have hqueue : ∀ {pool state}, engine.pools.get? pool = some state →
      state.config.predicate.isWindowed → pools.get? pool = some state.config ∧
        state.debits = liveDebits pools now pool old.charges.debits := by
    intro pool state hs hwindowed
    obtain ⟨hconfig, hdebits⟩ := hrebuilt.windowed hs hwindowed
    exact ⟨hconfig, by rw [hdebits, hof.debits, hlines]⟩
  refine ⟨?_, fun id hid => ?_, by rw [hrebuilt.keys, hof.keys, hlines, hcharges], ?_, ?_⟩
  · rw [hrebuilt.events, ← hlog]
    exact h.honest
  · rw [hcharges] at hid
    refine ⟨by simp [pendingIds, hrebuilt.fresh.2.1], .inr ?_⟩
    rcases (h.spent id hid).2 with ⟨n, -, -, rfl⟩ | ⟨epoch, sequence, hlt, rfl⟩
    · exact ⟨old.epoch, n, hnext, rfl⟩
    · exact ⟨epoch, sequence, hlt.trans hnext, rfl⟩
  · intro pool state window hs hwindow
    obtain ⟨hconfig, hdebits⟩ := hqueue hs (by rw [hwindow]; rfl)
    have hdated : ∀ debit ∈ debitsOf pool old.charges.debits,
        Dated (window.windowSec * nanosPerSec) debit :=
      fun debit hdebit => (hends.dated hconfig hwindow hdebit).2
    rw [hcharges, hdebits, liveDebits_eq hconfig hwindow now hends,
      ← (hbooks.stamped_debitsOf pool).dropWhile_expired hdated]
    refine ⟨_, List.takeWhile_append_dropWhile.symm, fun debit hdebit => ?_⟩
    exact List.mem_takeWhile_imp hdebit
  · intro pool state window hs hwindow
    obtain ⟨hconfig, hdebits⟩ := hqueue hs (by rw [hwindow]; rfl)
    obtain ⟨before, hbefore, hsame⟩ := hbooks.opened pool state.config hconfig
    have hwindow' : before.config.predicate = .windowedConsumption window := by
      rw [hsame, (hbooks.restart hlog hread hrebuilt).normal hs (by rw [hwindow]; rfl)]
      exact hwindow
    rw [hdebits, h.live hbooks hends hbefore hwindow']
    exact Nat.le_trans (usageOf_le_of_sublist (RuntimePool.prune_debits_sublist ..))
      (h.budget pool before window hbefore hwindow')

end LeaseEngine

/-- As long as no failed attempt reaches the log, the log is exact. -/
theorem World.Reached.exact {pools : Dict String PoolConfig} {fates : List AppendFate}
    {time : Time} {world : World} (h : World.Reached pools fates time world)
    (hhonest : ∀ fate ∈ fates, fate.honest) : world.engine.Exact time := by
  suffices hall : world.engine.Books pools time ∧ world.engine.Exact time from hall.2
  refine h.invariant (P := fun time world => world.engine.Books pools time ∧
    world.engine.Exact time) ?_ ?_ ?_ ?_
  · intro epoch yieldGrace agingThreshold now engine hnew
    refine ⟨new_books hnew now, ?_⟩
    have hcharges := new_charges hnew
    obtain ⟨-, rfl⟩ := new_eq hnew
    have hqueue : ∀ {pool state}, (pools.mapVals fun name config =>
        RuntimePool.new (normalizeConfig name config)).get? pool = some state →
        state.debits = [] := by
      intro pool state hs
      rw [Dict.get?_mapVals, Option.map_eq_some_iff] at hs
      obtain ⟨config, -, rfl⟩ := hs
      rfl
    refine ⟨fun log hlog => ?_, by simp [hcharges], by rw [hcharges], ?_, ?_⟩
    · cases hlog
      exact ⟨⟨rfl, rfl, fun fate hfate => AppendFate.whole_of_honest (hhonest fate hfate)⟩, hhonest⟩
    · intro pool state window hs hwindow
      exact ⟨[], by rw [hcharges, hqueue hs]; rfl, by simp⟩
    · intro pool state window hs hwindow
      rw [hqueue hs]
      exact Nat.zero_le _
  · rintro time now world hle ⟨hbooks, hexact⟩
    exact ⟨hbooks.wait hle, hexact.wait hle⟩
  · rintro base now own engine world hmove ⟨hbooks, hexact⟩
    have hnext := hbooks.step hmove
    exact ⟨hnext, hexact.step hmove hnext.tickets hbooks.queue hbooks.events⟩
  · rintro now world log engine epoch yieldGrace agingThreshold witnessRecords ⟨hbooks, hexact⟩
      hlog hlt hdurable
    obtain ⟨log', hlog', hread⟩ := hbooks.events
    rw [hlog] at hlog'
    cases hlog'
    obtain ⟨rfl, -, snapshot, hsnapshot, hrebuilt⟩ := fromDurable_rebuilt hread hdurable
    exact ⟨hbooks.restart hlog hread hrebuilt,
      hexact.restart hbooks hlog hread hlt (rebuildWindowUsage_of hread hsnapshot).2 hrebuilt⟩

/-! ## Budgets survive a crash -/

/-- What a rebuild at `now` finds is what the engine has once it is pruned: the same debits, all of
them in the window, the same totals, the same debited admissions. -/
def SurvivesExactly (pools : Dict String PoolConfig) (witnessRecords : Nat) (now : Time)
    (engine : LeaseEngine) : Prop :=
  ∃ log snapshot, engine.events = some log ∧
    rebuildWindowUsage pools log witnessRecords now = .ok snapshot ∧
    snapshot.debitedAdmissions = engine.debitedAdmissions ∧
    ∀ pool state window, engine.pools.get? pool = some state →
      state.config.predicate = .windowedConsumption window →
        (snapshot.debits.get? pool).getD [] = (state.prune now).debits ∧
        (∀ debit ∈ (state.prune now).debits,
          now < debit.admittedAt + window.windowSec * nanosPerSec) ∧
        (snapshot.usage.get? pool).getD 0 = usageOf (state.prune now).debits ∧
        ∀ used, ((budgetUsedAt pool now).exec engine).1 = .ok used →
          used = (snapshot.usage.get? pool).getD 0

/-- A rebuild at `now` returns, and finds no less than the engine has used. -/
def SurvivesAtLeast (pools : Dict String PoolConfig) (witnessRecords : Nat) (now : Time)
    (engine : LeaseEngine) : Prop :=
  ∃ log snapshot, engine.events = some log ∧
    rebuildWindowUsage pools log witnessRecords now = .ok snapshot ∧
    ∀ pool state, engine.pools.get? pool = some state → state.config.predicate.isWindowed →
      usageOf (state.prune now).debits ≤ (snapshot.usage.get? pool).getD 0 ∧
        ∀ used, ((budgetUsedAt pool now).exec engine).1 = .ok used →
          used ≤ (snapshot.usage.get? pool).getD 0

/-- The end of the window of every debit in the log can be computed. -/
def LeaseEngine.Dates (pools : Dict String PoolConfig) (engine : LeaseEngine) : Prop :=
  WindowsEnd pools (loggedDebits engine.logLines)

/-- What the log has in the window of a pool adds up to a `u64`. -/
def LeaseEngine.Totals (pools : Dict String PoolConfig) (now : Time) (engine : LeaseEngine) : Prop :=
  ∀ pool, usageOf (liveDebits pools now pool (loggedDebits engine.logLines)) ≤ u64Max

theorem LeaseEngine.Dates.charges {pools : Dict String PoolConfig} {engine : LeaseEngine}
    (h : engine.Dates pools) : WindowsEnd pools engine.charges.debits :=
  WindowsEnd.sublist h (chargesOf_debits_sublist _)

instance (pools : Dict String PoolConfig) (engine : LeaseEngine) : Decidable (engine.Dates pools) :=
  inferInstanceAs (Decidable (WindowsEnd _ _))

theorem LeaseEngine.totals_of_le {pools : Dict String PoolConfig} {now : Time} {engine : LeaseEngine}
    (h : usageOf (loggedDebits engine.logLines) ≤ u64Max) : engine.Totals pools now :=
  fun _ => (usageOf_le_of_sublist List.filter_sublist).trans h

theorem budgetUsedAt_eq {engine : LeaseEngine} {pool : String} {state : RuntimePool} {now : Time}
    {used : Nat} (hs : engine.pools.get? pool = some state)
    (h : ((budgetUsedAt pool now).exec engine).1 = .ok used) :
    used = usageOf (state.prune now).debits % 2 ^ 64 := by
  rw [budgetUsedAt, Eff.exec_bind] at h
  simp only [Eff.exec_get, hs] at h
  rw [exec_withPool] at h
  simp only [hs] at h
  rw [RuntimePool.prune]
  rcases hp : pruneDebits state now with ⟨error | _, pruned⟩
  · rw [hp] at h
    cases h
  · rw [hp] at h
    cases h
    rfl

theorem LeaseEngine.Covered.survivesAtLeast {pools : Dict String PoolConfig} {now : Time}
    {engine : LeaseEngine} {past : List TraceEntry} (h : engine.Covered past)
    (hbooks : engine.Books pools now) (hwhole : ∃ log, engine.events = some log ∧ log.Whole)
    (hdates : engine.Dates pools) (htotals : engine.Totals pools now) (witnessRecords : Nat) :
    SurvivesAtLeast pools witnessRecords now engine := by
  obtain ⟨log, hlog, hread⟩ := hbooks.events
  have hintact : log.garbled = false := by
    obtain ⟨log', hlog', hwhole⟩ := hwhole
    rw [hlog] at hlog'
    cases hlog'
    exact hwhole.intact
  have hlines : chargesOf log.lines = engine.charges := by
    rw [LeaseEngine.charges, logLines_eq hlog]
  obtain ⟨snapshot, hsnapshot⟩ : ∃ snapshot,
      rebuildWindowUsage pools log witnessRecords now = .ok snapshot := by
    refine rebuildWindowUsage_ok witnessRecords hread hintact (hlines ▸ hdates.charges) fun pool => ?_
    refine (usageOf_le_of_sublist ?_).trans (htotals pool)
    rw [logLines_eq hlog]
    exact (chargesOf_debits_sublist log.lines).filter _
  obtain ⟨-, hof⟩ := rebuildWindowUsage_of hread hsnapshot
  refine ⟨log, snapshot, hlog, hsnapshot, fun pool state hs hwindowed => ?_⟩
  have hsub := h.queues pool state hs hwindowed
  have hle : usageOf (state.prune now).debits ≤ (snapshot.usage.get? pool).getD 0 := by
    cases hwindow : state.config.predicate with
    | coResidency =>
      rw [hwindow] at hwindowed
      cases hwindowed
    | windowedConsumption window =>
      have hconfig := hbooks.config pool state hs hwindowed
      rw [hof.usage, hlines, liveDebits_eq hconfig hwindow now hdates.charges,
        hbooks.prune_debits hdates.charges hs hwindow hsub]
      exact usageOf_le_of_sublist (hsub.filter _)
  refine ⟨hle, fun used hused => ?_⟩
  rw [budgetUsedAt_eq hs hused]
  exact Nat.le_trans (Nat.mod_le _ _) hle

theorem LeaseEngine.Exact.survivesExactly {pools : Dict String PoolConfig} {now : Time}
    {engine : LeaseEngine} (h : engine.Exact now) (hbooks : engine.Books pools now)
    (hdates : engine.Dates pools) (witnessRecords : Nat) :
    SurvivesExactly pools witnessRecords now engine := by
  obtain ⟨log, hlog, hread⟩ := hbooks.events
  have hends := hdates.charges
  have hlines : chargesOf log.lines = engine.charges := by
    rw [LeaseEngine.charges, logLines_eq hlog]
  have hlive : ∀ {pool state window}, engine.pools.get? pool = some state →
      state.config.predicate = .windowedConsumption window →
        liveDebits pools now pool (chargesOf log.lines).debits = (state.prune now).debits := by
    intro pool state window hs hwindow
    rw [hlines]
    exact h.live hbooks hends hs hwindow
  have hsmall : ∀ {pool state window}, engine.pools.get? pool = some state →
      state.config.predicate = .windowedConsumption window →
        usageOf (state.prune now).debits ≤ u64Max := by
    intro pool state window hs hwindow
    have hbudget := h.budget pool state window hs hwindow
    have hsub := usageOf_le_of_sublist (RuntimePool.prune_debits_sublist state now)
    omega
  have hok : ∃ snapshot, rebuildWindowUsage pools log witnessRecords now = .ok snapshot := by
    refine rebuildWindowUsage_ok witnessRecords hread (h.honest log hlog).whole.intact
      (hlines ▸ hends) fun pool => ?_
    rw [hlines]
    by_cases hwindowed : engine.isWindowedPool pool
    · obtain ⟨state, window, hs, hwindow⟩ := isWindowedPool_iff.mp hwindowed
      rw [h.live hbooks hends hs hwindow]
      exact hsmall hs hwindow
    · have hnone : debitsOf pool engine.charges.debits = [] := by
        rw [debitsOf, List.filter_eq_nil_iff]
        intro debit hdebit
        rw [decide_eq_true_eq]
        rintro rfl
        exact hwindowed (hbooks.owned debit hdebit)
      have hsub := liveDebits_sublist pools now pool engine.charges.debits
      rw [hnone] at hsub
      rw [List.sublist_nil.mp hsub]
      exact Nat.zero_le _
  obtain ⟨snapshot, hsnapshot⟩ := hok
  obtain ⟨-, hof⟩ := rebuildWindowUsage_of hread hsnapshot
  refine ⟨log, snapshot, hlog, hsnapshot, by rw [hof.keys, hlines, h.keys], ?_⟩
  intro pool state window hs hwindow
  have husage : (snapshot.usage.get? pool).getD 0 = usageOf (state.prune now).debits := by
    rw [hof.usage, hlive hs hwindow]
  refine ⟨by rw [hof.debits, hlive hs hwindow], fun debit hdebit => ?_, husage, fun used hused => ?_⟩
  · have hconfig := hbooks.config pool state hs (by rw [hwindow]; rfl)
    rw [← hlive hs hwindow, hlines, liveDebits_eq hconfig hwindow now hends, List.mem_filter] at hdebit
    obtain ⟨hmem, hin⟩ := hdebit
    have hdated := (hends.dated hconfig hwindow hmem).2
    simpa [expired, hdated] using hin
  · rw [husage, budgetUsedAt_eq hs hused]
    have hle := hsmall hs hwindow
    exact Nat.mod_eq_of_lt (by unfold u64Max at hle; omega)

/-- The window budgets at a crash, where the ends of the windows can be computed. If no append that
is reported failed has left anything in the log, a rebuild at any later time finds just what the
engine has. If such appends may have left their whole lines, it finds no less, unless the lines
overflow a total or some grant has been charged after such an append at the same lease or with the
same admission key. Without such a grant no admission key has been charged twice in any of the
epochs. -/
theorem window_budgets_survive {pools : Dict String PoolConfig} {fates : List AppendFate}
    {time now : Time} {world : World} (h : World.Reached pools fates time world) (hnow : time ≤ now)
    (witnessRecords : Nat) :
    ((∀ fate ∈ fates, fate.honest) → world.engine.Dates pools →
      SurvivesExactly pools witnessRecords now world.engine) ∧
    ((∀ fate ∈ fates, fate.whole) → world.NoRetry → world.engine.Dates pools →
      world.engine.Totals pools now → SurvivesAtLeast pools witnessRecords now world.engine) ∧
    (world.NoRetry → (chargedKeys world.history).Nodup) := by
  have hbooks := h.books.wait hnow
  refine ⟨?_, ?_, ?_⟩
  · intro hhonest hdates
    exact ((h.exact hhonest).wait hnow).survivesExactly hbooks hdates witnessRecords
  · intro hwhole hretry hdates htotals
    exact (h.covered hretry).survivesAtLeast hbooks (h.whole hwhole) hdates htotals witnessRecords
  · intro hretry
    exact (h.covered hretry).once

/-! Budgets of one pool. -/

def budgetConfig (windowSec consumptionCap : Nat) : PoolConfig :=
  { resource := some .budget, predicate := .windowedConsumption { windowSec, consumptionCap } }

def budgetPools (windowSec consumptionCap : Nat) : Dict String PoolConfig :=
  Dict.insert ∅ "api" (budgetConfig windowSec consumptionCap)

def budgetEngine (windowSec consumptionCap : Nat) (fates : List AppendFate) : LeaseEngine :=
  { epoch := 1, yieldGrace := 1000, agingThreshold := 1000000, events := some { fates }
    pools := (budgetPools windowSec consumptionCap).mapVals fun name config =>
      RuntimePool.new (normalizeConfig name config) }

theorem budgetEngine_new (windowSec consumptionCap : Nat) (fates : List AppendFate) :
    newWithAgingThreshold 1 1000 1000000 (budgetPools windowSec consumptionCap) (some { fates }) =
      .ok (budgetEngine windowSec consumptionCap fates) := by
  have herror : poolError "api" (budgetConfig windowSec consumptionCap) = none := rfl
  have hpools : (budgetPools windowSec consumptionCap).entries.findSome?
      (fun entry => poolError entry.1 entry.2) = none := by
    change List.findSome? _ [("api", budgetConfig windowSec consumptionCap)] = none
    rw [List.findSome?_cons, herror]
    rfl
  rw [newWithAgingThreshold, if_neg (by decide), if_neg (by decide), if_neg (by decide), hpools]
  rfl

/-- A budget of 100 a minute. -/
abbrev apiConfig : PoolConfig := budgetConfig 60 100

abbrev apiPools : Dict String PoolConfig := budgetPools 60 100

abbrev apiEngine (fates : List AppendFate) : LeaseEngine := budgetEngine 60 100 fates

theorem apiEngine_new (fates : List AppendFate) :
    newWithAgingThreshold 1 1000 1000000 apiPools (some { fates }) = .ok (apiEngine fates) := rfl

def apiRequest (jobId : String) (estimate : Nat) : LeaseRequest :=
  { jobId, unit := jobId, pools := ["api"], priority := .medium, admissionKey := some jobId
    consumptionEstimate := some estimate }

def seconds (n : Nat) : Time := n * nanosPerSec

/-- One request is granted at the start, and one is admitted ten seconds later. -/
def twoAdmissions (engine : LeaseEngine) (first second : LeaseRequest) : World :=
  (World.call { engine } (.admitAt first 0)).call (.admitAt second (seconds 10))

theorem twoAdmissions_reached {pools : Dict String PoolConfig} {fates : List AppendFate}
    {engine : LeaseEngine} {epoch yieldGrace agingThreshold : Nat}
    (h : newWithAgingThreshold epoch yieldGrace agingThreshold pools (some { fates }) = .ok engine)
    (first second : LeaseRequest) :
    World.Reached pools fates (seconds 10) (twoAdmissions engine first second) :=
  ((World.Reached.start h 0).call (.admitAt first 0) (Int.le_refl 0)).call
    (.admitAt second (seconds 10)) (show 0 ≤ seconds 10 by decide)

/-- One request is granted and one has to wait. -/
def busyWorld : World := twoAdmissions (apiEngine []) (apiRequest "a" 60) (apiRequest "b" 60)

theorem busyWorld_reached : World.Reached apiPools [] (seconds 10) busyWorld :=
  twoAdmissions_reached (apiEngine_new []) _ _

/-- The second append is reported failed, and its line is in the log. -/
def indeterminateWorld : World :=
  twoAdmissions (apiEngine [.written, .indeterminate]) (apiRequest "a" 60) (apiRequest "b" 30)

theorem indeterminateWorld_reached :
    World.Reached apiPools [.written, .indeterminate] (seconds 10) indeterminateWorld :=
  twoAdmissions_reached (apiEngine_new _) _ _

/-- The engine that comes up after a crash of the busy one still has the debit, and a line whose append
was reported failed counts on top. -/
theorem window_budgets_survive_busy :
    (∃ engine, World.Reached apiPools [] (seconds 20) (busyWorld.restarted engine) ∧
      chargedKeys (busyWorld.restarted engine).history = ["a"] ∧
      SurvivesExactly apiPools 0 (seconds 30) engine) ∧
    (loggedDebits indeterminateWorld.engine.logLines).map (·.amount) = [60, 30] ∧
    SurvivesAtLeast apiPools 0 (seconds 30) indeterminateWorld.engine := by
  constructor
  · obtain ⟨log, hlog⟩ : ∃ log, busyWorld.engine.events = some log := by
      rw [← Option.isSome_iff_exists]
      decide +kernel
    have hrestart : (busyWorld.engine.events.map fun log => (fromDurableWithAgingThreshold 2 1000
        1000000 apiPools log 0 (seconds 20)).map fun engine =>
          (engine.trace.length, decide (engine.Dates apiPools))) = some (.ok (0, true)) := by
      decide +kernel
    rw [hlog, Option.map_some, Option.some.injEq] at hrestart
    cases hengine : fromDurableWithAgingThreshold 2 1000 1000000 apiPools log 0 (seconds 20) with
    | error error =>
      rw [hengine] at hrestart
      cases hrestart
    | ok engine =>
      rw [hengine] at hrestart
      obtain ⟨htrace, hdates⟩ := Prod.mk.inj (Except.ok.inj hrestart)
      have hhistory : (busyWorld.restarted engine).history = busyWorld.history := by
        rw [World.history, World.restarted, List.length_eq_zero_iff.mp htrace]
        rfl
      have hreached : World.Reached apiPools [] (seconds 20) (busyWorld.restarted engine) :=
        busyWorld_reached.restart (by decide) hlog (by decide +kernel) hengine
      have hlater : seconds 20 ≤ seconds 30 := by decide
      refine ⟨engine, hreached, ?_, (window_budgets_survive hreached hlater 0).1 (by simp)
        (of_decide_eq_true hdates)⟩
      rw [hhistory]
      decide +kernel
  · have hlater : seconds 10 ≤ seconds 30 := by decide
    have hretry : indeterminateWorld.NoRetry := by
      unfold World.NoRetry
      decide +kernel
    have htotals : indeterminateWorld.engine.Totals apiPools (seconds 30) :=
      totals_of_le (by decide +kernel)
    exact ⟨by decide +kernel, (window_budgets_survive indeterminateWorld_reached hlater 0).2.1
      (by decide) hretry (by decide +kernel) htotals⟩

/-- The first attempt is reported failed but stays in the log, and the second succeeds half a minute
later. -/
def retriedWorld : World :=
  (World.call { engine := apiEngine [.indeterminate] } (.admitAt (apiRequest "k" 60) 0)).call
    (.admitAt (apiRequest "k" 60) (seconds 30))

theorem retriedWorld_reached :
    World.Reached apiPools [.indeterminate] (seconds 30) retriedWorld :=
  ((World.Reached.start (apiEngine_new _) 0).call (.admitAt (apiRequest "k" 60) 0)
    (Int.le_refl 0)).call (.admitAt (apiRequest "k" 60) (seconds 30)) (by decide)

/-- A window that reaches past the last instant of chrono. -/
def distantWorld : World :=
  twoAdmissions (budgetEngine 9000000000000 100 []) (apiRequest "a" 60) (apiRequest "b" 60)

/-- An attempt for half of the cap stays in the log, and another request takes the other half. -/
def overflowWorld : World :=
  twoAdmissions (budgetEngine 60 u64Max [.indeterminate]) (apiRequest "a" (2 ^ 63))
    (apiRequest "b" (2 ^ 63))

/-- A rebuild that fails has no snapshot. -/
theorem no_snapshot {engine : LeaseEngine} {pools : Dict String PoolConfig} {now : Time}
    {log : LeaseEventLog} {snapshot : WindowUsageSnapshot}
    (h : (engine.events.map fun log => (rebuildWindowUsage pools log 0 now).toBool) = some false)
    (hlog : engine.events = some log) (hsnapshot : rebuildWindowUsage pools log 0 now = .ok snapshot) :
    False := by
  rw [hlog, Option.map_some, hsnapshot] at h
  cases h

/-- After 70 seconds the engine of the retried world has used 60, and a rebuild finds nothing: it counts
the first line of the key only, which has left the window. A rebuild of the distant world panics, and
one of the overflown world fails. -/
theorem retried_charge_lost_on_rebuild :
    (¬ ∀ pools fates time world, World.Reached pools fates time world → (∀ fate ∈ fates, fate.whole) →
      ∀ now, time ≤ now → ∀ witnessRecords, SurvivesAtLeast pools witnessRecords now world.engine) ∧
    (¬ ∀ pools fates time world, World.Reached pools fates time world →
      (∀ fate ∈ fates, fate.honest) → ∀ now, time ≤ now →
        ∀ witnessRecords, SurvivesExactly pools witnessRecords now world.engine) ∧
    ¬ ∀ pools fates time world, World.Reached pools fates time world → (∀ fate ∈ fates, fate.whole) →
      world.NoRetry → world.engine.Dates pools → ∀ now, time ≤ now →
        ∀ witnessRecords, SurvivesAtLeast pools witnessRecords now world.engine := by
  refine ⟨fun hclaim => ?_, fun hclaim => ?_, fun hclaim => ?_⟩
  · obtain ⟨log, snapshot, hlog, hsnapshot, hsurvives⟩ :=
      hclaim _ _ _ _ retriedWorld_reached (by decide) (seconds 70) (by decide) 0
    have hrebuild : (retriedWorld.engine.events.map fun log =>
        (rebuildWindowUsage apiPools log 0 (seconds 70)).map fun snapshot =>
          (snapshot.usage.get? "api").getD 0) = some (.ok 0) := by decide +kernel
    rw [hlog, Option.map_some, Option.some.injEq, hsnapshot] at hrebuild
    have hzero : (snapshot.usage.get? "api").getD 0 = 0 := Except.ok.inj hrebuild
    obtain ⟨state, hs⟩ : ∃ state, retriedWorld.engine.pools.get? "api" = some state := by
      rw [← Option.isSome_iff_exists]
      decide +kernel
    have hwindowed : (retriedWorld.engine.pools.get? "api").map
        (·.config.predicate.isWindowed) = some true := by decide +kernel
    rw [hs, Option.map_some, Option.some.injEq] at hwindowed
    have hused : ((budgetUsedAt "api" (seconds 70)).exec retriedWorld.engine).1 = .ok 60 := by
      decide +kernel
    have hle := (hsurvives "api" state hs hwindowed).2 60 hused
    omega
  · have hreached : World.Reached _ [] (seconds 10) distantWorld :=
      twoAdmissions_reached (budgetEngine_new _ _ _) _ _
    obtain ⟨log, snapshot, hlog, hsnapshot, -⟩ :=
      hclaim _ _ _ _ hreached (by simp) (seconds 20) (by decide) 0
    exact no_snapshot (by decide +kernel) hlog hsnapshot
  · have hreached : World.Reached _ [.indeterminate] (seconds 10) overflowWorld :=
      twoAdmissions_reached (budgetEngine_new _ _ _) _ _
    have hretry : overflowWorld.NoRetry := by
      unfold World.NoRetry
      decide +kernel
    obtain ⟨log, snapshot, hlog, hsnapshot, -⟩ :=
      hclaim _ _ _ _ hreached (by decide) hretry (by decide +kernel) (seconds 20) (by decide) 0
    exact no_snapshot (by decide +kernel) hlog hsnapshot

end Tally.Lease
