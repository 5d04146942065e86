import Tally.Lease.Prune
import Tally.Lib.Result

/-!
# Rebuilding the window budgets

`rebuild_window_usage` and `from_durable` of `lease.rs`: after a restart, the log of grants is all
that is left of the budgets. The log is scanned once; `Charges` is what the scan makes of the lines,
before it looks at the clock. The witness chain only lends its length.
-/

namespace Tally.Lease

def LeaseEventLog.read (log : LeaseEventLog) : Except LeaseError (List LeaseEvent) :=
  if log.garbled then .error .json
  else match log.lines.find? fun event => event.schemaVersion ≠ 1 with
  | some event => .error (.eventVersion event.schemaVersion)
  | none => .ok log.lines

structure WindowUsageSnapshot where
  usage : Dict String Nat
  debits : Dict String (List BudgetDebit)
  debitedAdmissions : Finset String
  witnessRecords : Nat

/-- The variables of the scan. -/
structure RebuildState where
  uniqueGrants : Finset String := ∅
  usage : Dict String Nat := ∅
  debits : Dict String (List BudgetDebit) := ∅
  debitedAdmissions : Finset String := ∅

/-- Count a debit of a configured windowed pool that is still in its window. -/
def rebuildDebit (pools : Dict String PoolConfig) (now : Time) (state : RebuildState)
    (debit : BudgetDebit) : Except LeaseError RebuildState :=
  match pools.get? debit.pool with
  | none => .ok state
  | some config =>
    match config.predicate with
    | .coResidency => .ok state
    | .windowedConsumption window => do
      let admittedAt ← parseTimestamp debit.admittedAt
      let window ← windowDuration window
      let stop ← addDuration admittedAt window
      if now < stop then
        let total := (state.usage.get? debit.pool).getD 0 + debit.amount
        if total ≤ u64Max then
          .ok { state with
            usage := state.usage.insert debit.pool total
            debits := state.debits.insert debit.pool
              ((state.debits.get? debit.pool).getD [] ++ [debit]) }
        else .error (.invalidRequest "rebuilt window usage overflow")
      else .ok state

/-- A grant counts once for its lease and, if it carries debits, once for its admission key. -/
def rebuildEvent (pools : Dict String PoolConfig) (now : Time) (state : RebuildState)
    (event : LeaseEvent) : Except LeaseError RebuildState :=
  match event.event with
  | .granted grant budgetDebits =>
    if grant.leaseId ∈ state.uniqueGrants then .ok state
    else
      let uniqueGrants := insert grant.leaseId state.uniqueGrants
      match LeaseEngine.chargedKey grant budgetDebits with
      | some key =>
        if key ∈ state.debitedAdmissions then .ok { state with uniqueGrants }
        else budgetDebits.foldlM (rebuildDebit pools now)
          { state with
            uniqueGrants, debitedAdmissions := insert key state.debitedAdmissions }
      | none => budgetDebits.foldlM (rebuildDebit pools now) { state with uniqueGrants }
  | _ => .ok state

def rebuildWindowUsage (pools : Dict String PoolConfig) (eventLog : LeaseEventLog)
    (witnessRecords : Nat) (now : Time) : Except LeaseError WindowUsageSnapshot :=
  match eventLog.read with
  | .error error => .error error
  | .ok lines =>
    match lines.foldlM (rebuildEvent pools now) {} with
    | .error error => .error error
    | .ok state => .ok {
        usage := state.usage
        debits := state.debits
        debitedAdmissions := state.debitedAdmissions
        witnessRecords }

def reopenCampaignPool (pools : Dict String PoolConfig) (pool : String) : Dict String PoolConfig :=
  if isCampaignPoolName pool && (pools.get? pool).isNone then
    pools.insert pool campaignMutexConfig
  else pools

/-- Grants are the only record of the campaign pools that were open. -/
def reopenCampaignPools (pools : Dict String PoolConfig) (event : LeaseEvent) :
    Dict String PoolConfig :=
  match event.event with
  | .granted grant _ => grant.pools.foldl reopenCampaignPool pools
  | _ => pools

/-- The rebuilt queue of a pool replaces the empty one. -/
def LeaseEngine.restoreDebits (pools : Dict String RuntimePool) (entry : String × List BudgetDebit) :
    Dict String RuntimePool :=
  updatePool pools entry.1 fun state => { state with debits := entry.2 }

def LeaseEngine.fromDurableWithAgingThreshold (epoch yieldGrace agingThreshold : Nat)
    (pools : Dict String PoolConfig) (events : LeaseEventLog) (witnessRecords : Nat) (now : Time) :
    Except LeaseError LeaseEngine :=
  match events.read with
  | .error error => .error error
  | .ok lines =>
    let pools := lines.foldl reopenCampaignPools pools
    match rebuildWindowUsage pools events witnessRecords now with
    | .error error => .error error
    | .ok rebuilt =>
      match newWithAgingThreshold epoch yieldGrace agingThreshold pools (some events) with
      | .error error => .error error
      | .ok engine => .ok { engine with
          pools := rebuilt.debits.entries.foldl restoreDebits engine.pools
          debitedAdmissions := rebuilt.debitedAdmissions }

/-! ## What the scan keeps -/

/-- The leases, the admission keys and the debits that the scan has counted. -/
structure Charges where
  ids : Finset String := ∅
  keys : Finset String := ∅
  debits : List BudgetDebit := []

def Charges.add (charges : Charges) (event : LeaseEvent) : Charges :=
  match event.event with
  | .granted grant budgetDebits =>
    if grant.leaseId ∈ charges.ids then charges
    else
      match LeaseEngine.chargedKey grant budgetDebits with
      | some key =>
        if key ∈ charges.keys then { charges with ids := insert grant.leaseId charges.ids }
        else {
          ids := insert grant.leaseId charges.ids
          keys := insert key charges.keys
          debits := charges.debits ++ budgetDebits }
      | none => { charges with
          ids := insert grant.leaseId charges.ids, debits := charges.debits ++ budgetDebits }
  | _ => charges

def chargesOf (lines : List LeaseEvent) : Charges := lines.foldl Charges.add {}

theorem chargesOf_append (lines : List LeaseEvent) (event : LeaseEvent) :
    chargesOf (lines ++ [event]) = (chargesOf lines).add event := by
  rw [chargesOf, List.foldl_append]
  rfl

/-- The debits that a line carries. -/
def LeaseEvent.debits (line : LeaseEvent) : List BudgetDebit :=
  match line.event with
  | .granted _ budgetDebits => budgetDebits
  | _ => []

/-- The debits that the lines carry, whether the scan counts them or not. -/
def loggedDebits (lines : List LeaseEvent) : List BudgetDebit := lines.flatMap (·.debits)

/-- The debit is one of a configured windowed pool and has not left its window. -/
def InWindow (pools : Dict String PoolConfig) (now : Time) (debit : BudgetDebit) : Bool :=
  match pools.get? debit.pool with
  | none => false
  | some config =>
    match config.predicate with
    | .coResidency => false
    | .windowedConsumption window => decide (now < debit.admittedAt + window.windowSec * nanosPerSec)

/-- The debits of a pool that count at `now`. -/
def liveDebits (pools : Dict String PoolConfig) (now : Time) (pool : String)
    (debits : List BudgetDebit) : List BudgetDebit :=
  debits.filter fun debit => decide (debit.pool = pool) && InWindow pools now debit

theorem liveDebits_append (pools : Dict String PoolConfig) (now : Time) (pool : String)
    (l l' : List BudgetDebit) :
    liveDebits pools now pool (l ++ l') = liveDebits pools now pool l ++
      liveDebits pools now pool l' :=
  List.filter_append ..

/-- The ends of the windows of these debits can be computed. -/
def WindowsEnd (pools : Dict String PoolConfig) (debits : List BudgetDebit) : Prop :=
  ∀ debit ∈ debits, ∀ config, pools.get? debit.pool = some config → ∀ window,
    config.predicate = .windowedConsumption window →
      window.windowSec ≤ maxDurationSec ∧ Dated (window.windowSec * nanosPerSec) debit

/-- The end of the window of a debit can be computed, if its pool has one. -/
def endComputes (pools : Dict String PoolConfig) (debit : BudgetDebit) : Bool :=
  match pools.get? debit.pool with
  | none => true
  | some config =>
    match config.predicate with
    | .coResidency => true
    | .windowedConsumption window =>
      decide (window.windowSec ≤ maxDurationSec ∧ Dated (window.windowSec * nanosPerSec) debit)

theorem windowsEnd_iff {pools : Dict String PoolConfig} {debits : List BudgetDebit} :
    WindowsEnd pools debits ↔ ∀ debit ∈ debits, endComputes pools debit = true := by
  refine forall₂_congr fun debit _ => ?_
  unfold endComputes
  cases pools.get? debit.pool with
  | none => simp
  | some config => cases h : config.predicate <;> simp [h]

instance (pools : Dict String PoolConfig) (debits : List BudgetDebit) :
    Decidable (WindowsEnd pools debits) :=
  decidable_of_iff _ windowsEnd_iff.symm

theorem WindowsEnd.sublist {pools : Dict String PoolConfig} {l l' : List BudgetDebit}
    (h : WindowsEnd pools l') (hsub : l.Sublist l') : WindowsEnd pools l :=
  fun debit hdebit => h debit (hsub.subset hdebit)

theorem WindowsEnd.append {pools : Dict String PoolConfig} {l l' : List BudgetDebit}
    (h : WindowsEnd pools l) (h' : WindowsEnd pools l') : WindowsEnd pools (l ++ l') := by
  intro debit hdebit
  rcases List.mem_append.mp hdebit with hdebit | hdebit
  · exact h debit hdebit
  · exact h' debit hdebit

/-- The state of the scan once it has counted these debits. -/
structure RebuildState.Counts (pools : Dict String PoolConfig) (now : Time) (state : RebuildState)
    (counted : List BudgetDebit) : Prop where
  ends : WindowsEnd pools counted
  debits : ∀ pool, (state.debits.get? pool).getD [] = liveDebits pools now pool counted
  usage : ∀ pool, (state.usage.get? pool).getD 0 = usageOf (liveDebits pools now pool counted)

theorem rebuildDebit_counts {pools : Dict String PoolConfig} {now : Time} {state state' : RebuildState}
    {debits : List BudgetDebit} {debit : BudgetDebit} (h : state.Counts pools now debits)
    (hstep : rebuildDebit pools now state debit = .ok state') :
    state'.Counts pools now (debits ++ [debit]) ∧ state'.uniqueGrants = state.uniqueGrants ∧
      state'.debitedAdmissions = state.debitedAdmissions := by
  have hskip : InWindow pools now debit = false → WindowsEnd pools [debit] →
      state.Counts pools now (debits ++ [debit]) := by
    intro hout hends
    have hnone : ∀ pool, liveDebits pools now pool [debit] = [] := by
      intro pool
      simp [liveDebits, hout]
    refine ⟨h.ends.append hends, fun pool => ?_, fun pool => ?_⟩
    · rw [liveDebits_append, hnone, List.append_nil]
      exact h.debits pool
    · rw [liveDebits_append, hnone, List.append_nil]
      exact h.usage pool
  unfold rebuildDebit at hstep
  cases hp : pools.get? debit.pool with
  | none =>
    rw [hp] at hstep
    cases hstep
    exact ⟨hskip (by simp [InWindow, hp]) (by simp [WindowsEnd, hp]), rfl, rfl⟩
  | some config =>
    simp only [hp] at hstep
    cases hc : config.predicate with
    | coResidency =>
      rw [hc] at hstep
      cases hstep
      exact ⟨hskip (by simp [InWindow, hp, hc]) (by simp [WindowsEnd, hp, hc]), rfl, rfl⟩
    | windowedConsumption window =>
      simp only [hc] at hstep
      obtain ⟨admittedAt, hstamp, hstep⟩ := bind_ok_iff.mp hstep
      obtain ⟨duration, hduration, hstep⟩ := bind_ok_iff.mp hstep
      obtain ⟨stop, hstop, hstep⟩ := bind_ok_iff.mp hstep
      obtain ⟨hsec, rfl⟩ := windowDuration_ok hduration
      obtain ⟨hdated, rfl⟩ := windowEnd_ok (by rw [windowEnd, hstamp]; exact hstop)
      have hends : WindowsEnd pools [debit] := by
        simp only [WindowsEnd, List.mem_singleton, forall_eq, hp, Option.some.injEq, forall_eq', hc,
          PoolPredicate.windowedConsumption.injEq]
        exact ⟨hsec, hdated⟩
      split at hstep
      · next hin =>
        have hin' : InWindow pools now debit = true := by simpa [InWindow, hp, hc] using hin
        split at hstep
        swap
        · cases hstep
        cases hstep
        refine ⟨⟨h.ends.append hends, fun pool => ?_, fun pool => ?_⟩, rfl, rfl⟩
        · rw [Dict.get?_insert, liveDebits_append, ← h.debits pool]
          by_cases hpool : pool = debit.pool
          · simp [hpool, liveDebits, hin']
          · simp [hpool, liveDebits, Ne.symm hpool]
        · rw [Dict.get?_insert, liveDebits_append, usageOf_append, ← h.usage pool]
          by_cases hpool : pool = debit.pool
          · simp [hpool, liveDebits, hin', usageOf]
          · simp [hpool, liveDebits, Ne.symm hpool, usageOf]
      · next hout =>
        cases hstep
        exact ⟨hskip (by simpa [InWindow, hp, hc] using hout) hends, rfl, rfl⟩

/-- A debit is counted without error if its window can be computed and the total fits a `u64`. -/
theorem rebuildDebit_ok {pools : Dict String PoolConfig} {now : Time} {state : RebuildState}
    {counted : List BudgetDebit} {debit : BudgetDebit} (h : state.Counts pools now counted)
    (hends : WindowsEnd pools [debit])
    (htotal : usageOf (liveDebits pools now debit.pool (counted ++ [debit])) ≤ u64Max) :
    ∃ state', rebuildDebit pools now state debit = .ok state' := by
  unfold rebuildDebit
  cases hp : pools.get? debit.pool with
  | none => exact ⟨_, rfl⟩
  | some config =>
    dsimp only
    cases hc : config.predicate with
    | coResidency => exact ⟨_, rfl⟩
    | windowedConsumption window =>
      obtain ⟨hsec, hstamp, hstop⟩ := hends debit (List.mem_singleton_self _) config hp window hc
      simp only [parseTimestamp, if_pos hstamp, windowDuration_eq hsec, addDuration, if_pos hstop,
        bind, Except.bind]
      split
      · next hin =>
        have hin' : InWindow pools now debit = true := by simpa [InWindow, hp, hc] using hin
        have hsum : (state.usage.get? debit.pool).getD 0 + debit.amount ≤ u64Max := by
          rw [liveDebits_append, usageOf_append, ← h.usage] at htotal
          simpa [liveDebits, hin', usageOf] using htotal
        rw [if_pos hsum]
        exact ⟨_, rfl⟩
      · exact ⟨_, rfl⟩

theorem foldlM_rebuildDebit_counts {pools : Dict String PoolConfig} {now : Time}
    {debits counted : List BudgetDebit} {state state' : RebuildState}
    (h : state.Counts pools now counted)
    (hfold : debits.foldlM (rebuildDebit pools now) state = .ok state') :
    state'.Counts pools now (counted ++ debits) ∧ state'.uniqueGrants = state.uniqueGrants ∧
      state'.debitedAdmissions = state.debitedAdmissions := by
  induction debits generalizing state counted with
  | nil =>
    cases hfold
    rw [List.append_nil]
    exact ⟨h, rfl, rfl⟩
  | cons debit rest ih =>
    rw [List.foldlM_cons] at hfold
    cases hs : rebuildDebit pools now state debit with
    | error error =>
      rw [hs] at hfold
      cases hfold
    | ok mid =>
      rw [hs] at hfold
      obtain ⟨hmid, hids, hkeys⟩ := rebuildDebit_counts h hs
      obtain ⟨hend, hids', hkeys'⟩ := ih hmid hfold
      rw [List.append_assoc, List.singleton_append] at hend
      exact ⟨hend, hids'.trans hids, hkeys'.trans hkeys⟩

theorem foldlM_rebuildDebit_ok {pools : Dict String PoolConfig} {now : Time}
    {debits counted : List BudgetDebit} {state : RebuildState} (h : state.Counts pools now counted)
    (hends : WindowsEnd pools debits)
    (htotal : ∀ pool, usageOf (liveDebits pools now pool (counted ++ debits)) ≤ u64Max) :
    ∃ state', debits.foldlM (rebuildDebit pools now) state = .ok state' := by
  induction debits generalizing state counted with
  | nil => exact ⟨state, rfl⟩
  | cons debit rest ih =>
    have hhead : ∀ pool, usageOf (liveDebits pools now pool (counted ++ [debit])) ≤ u64Max := by
      intro pool
      refine Nat.le_trans (usageOf_le_of_sublist ?_) (htotal pool)
      have hsplit : counted ++ debit :: rest = (counted ++ [debit]) ++ rest := by simp
      rw [hsplit, liveDebits_append pools now pool (counted ++ [debit])]
      exact List.sublist_append_left ..
    have hfirst : WindowsEnd pools [debit] := hends.sublist (by simp)
    obtain ⟨mid, hs⟩ := rebuildDebit_ok h hfirst (hhead debit.pool)
    obtain ⟨hmid, -, -⟩ := rebuildDebit_counts h hs
    rw [List.foldlM_cons, hs]
    apply ih hmid
    · exact hends.sublist (List.sublist_cons_self ..)
    · intro pool
      rw [List.append_assoc, List.singleton_append]
      exact htotal pool

/-- The scan has come to these charges. -/
structure RebuildState.Reflects (pools : Dict String PoolConfig) (now : Time) (state : RebuildState)
    (charges : Charges) : Prop where
  ids : state.uniqueGrants = charges.ids
  keys : state.debitedAdmissions = charges.keys
  counts : state.Counts pools now charges.debits

theorem rebuildEvent_reflects {pools : Dict String PoolConfig} {now : Time}
    {state state' : RebuildState} {charges : Charges} {event : LeaseEvent}
    (h : state.Reflects pools now charges) (hstep : rebuildEvent pools now state event = .ok state') :
    state'.Reflects pools now (charges.add event) := by
  obtain ⟨hids, hkeys, hcounts⟩ := h
  -- the accumulators other than the debits do not matter to what has been counted
  have hframe : ∀ uniqueGrants debitedAdmissions, RebuildState.Counts pools now
      { state with uniqueGrants, debitedAdmissions } charges.debits :=
    fun _ _ => ⟨hcounts.ends, hcounts.debits, hcounts.usage⟩
  unfold rebuildEvent at hstep
  unfold Charges.add
  cases hevent : event.event with
  | granted grant budgetDebits =>
    simp only [hevent] at hstep ⊢
    rw [← hids, ← hkeys]
    by_cases hseen : grant.leaseId ∈ state.uniqueGrants
    · rw [if_pos hseen] at hstep ⊢
      cases hstep
      exact ⟨hids, hkeys, hcounts⟩
    rw [if_neg hseen] at hstep ⊢
    cases hkey : LeaseEngine.chargedKey grant budgetDebits with
    | none =>
      simp only [hkey] at hstep ⊢
      obtain ⟨hend, hids', hkeys'⟩ := foldlM_rebuildDebit_counts (hframe _ _) hstep
      exact ⟨hids', hkeys', hend⟩
    | some key =>
      simp only [hkey] at hstep ⊢
      by_cases hdup : key ∈ state.debitedAdmissions
      · rw [if_pos hdup] at hstep ⊢
        cases hstep
        exact ⟨rfl, rfl, hframe _ _⟩
      · rw [if_neg hdup] at hstep ⊢
        obtain ⟨hend, hids', hkeys'⟩ := foldlM_rebuildDebit_counts (hframe _ _) hstep
        exact ⟨hids', hkeys', hend⟩
  | _ =>
    simp only [hevent] at hstep ⊢
    cases hstep
    exact ⟨hids, hkeys, hcounts⟩

/-- The debits that a line adds to the charges. -/
theorem Charges.add_debits (charges : Charges) (event : LeaseEvent) :
    ∃ added, (charges.add event).debits = charges.debits ++ added ∧
      (added = [] ∨ ∃ grant, event.event = .granted grant added) := by
  unfold Charges.add
  cases hevent : event.event with
  | granted grant budgetDebits =>
    dsimp only
    split
    · exact ⟨[], by simp, .inl rfl⟩
    · split
      · split
        · exact ⟨[], by simp, .inl rfl⟩
        · exact ⟨budgetDebits, rfl, .inr ⟨grant, rfl⟩⟩
      · exact ⟨budgetDebits, rfl, .inr ⟨grant, rfl⟩⟩
  | _ => exact ⟨[], by simp, .inl rfl⟩

/-- The scan counts debits of the lines, each line once at most. -/
theorem chargesOf_debits_sublist (lines : List LeaseEvent) :
    (chargesOf lines).debits.Sublist (loggedDebits lines) := by
  induction lines using List.reverseRecOn with
  | nil => exact .slnil
  | append_singleton lines line ih =>
    obtain ⟨added, hadded, hkind⟩ := (chargesOf lines).add_debits line
    rw [chargesOf_append, hadded, loggedDebits, List.flatMap_append, List.flatMap_singleton]
    refine ih.append ?_
    rcases hkind with rfl | ⟨grant, hevent⟩
    · exact List.nil_sublist _
    · rw [LeaseEvent.debits, hevent]

theorem rebuildEvent_ok {pools : Dict String PoolConfig} {now : Time} {state : RebuildState}
    {charges : Charges} {event : LeaseEvent} (h : state.Reflects pools now charges)
    (hends : WindowsEnd pools (charges.add event).debits)
    (htotal : ∀ pool, usageOf (liveDebits pools now pool (charges.add event).debits) ≤ u64Max) :
    ∃ state', rebuildEvent pools now state event = .ok state' := by
  obtain ⟨hids, hkeys, hcounts⟩ := h
  have hframe : ∀ uniqueGrants debitedAdmissions, RebuildState.Counts pools now
      { state with uniqueGrants, debitedAdmissions } charges.debits :=
    fun _ _ => ⟨hcounts.ends, hcounts.debits, hcounts.usage⟩
  have hadded : ∀ {debits}, (charges.add event).debits = charges.debits ++ debits →
      WindowsEnd pools debits ∧
        ∀ pool, usageOf (liveDebits pools now pool (charges.debits ++ debits)) ≤ u64Max := by
    intro debits heq
    rw [heq] at hends htotal
    exact ⟨hends.sublist (List.sublist_append_right ..), htotal⟩
  unfold rebuildEvent
  unfold Charges.add at hadded
  cases hevent : event.event with
  | granted grant budgetDebits =>
    simp only [hevent] at hadded ⊢
    rw [← hids, ← hkeys] at hadded
    by_cases hseen : grant.leaseId ∈ state.uniqueGrants
    · rw [if_pos hseen]
      exact ⟨_, rfl⟩
    rw [if_neg hseen] at hadded ⊢
    cases hkey : LeaseEngine.chargedKey grant budgetDebits with
    | none =>
      simp only [hkey] at hadded ⊢
      obtain ⟨hends', htotal'⟩ := hadded rfl
      exact foldlM_rebuildDebit_ok (hframe _ _) hends' htotal'
    | some key =>
      simp only [hkey] at hadded ⊢
      by_cases hdup : key ∈ state.debitedAdmissions
      · rw [if_pos hdup]
        exact ⟨_, rfl⟩
      · rw [if_neg hdup] at hadded ⊢
        obtain ⟨hends', htotal'⟩ := hadded rfl
        exact foldlM_rebuildDebit_ok (hframe _ _) hends' htotal'
  | _ => exact ⟨_, rfl⟩

theorem foldlM_rebuildEvent_reflects {pools : Dict String PoolConfig} {now : Time}
    {lines : List LeaseEvent} {state state' : RebuildState} {charges : Charges}
    (h : state.Reflects pools now charges)
    (hfold : lines.foldlM (rebuildEvent pools now) state = .ok state') :
    state'.Reflects pools now (lines.foldl Charges.add charges) := by
  induction lines generalizing state charges with
  | nil =>
    cases hfold
    exact h
  | cons event rest ih =>
    rw [List.foldlM_cons] at hfold
    cases hs : rebuildEvent pools now state event with
    | error error =>
      rw [hs] at hfold
      cases hfold
    | ok mid =>
      rw [hs] at hfold
      exact ih (rebuildEvent_reflects h hs) hfold

/-- Later lines only add debits. -/
theorem foldl_add_debits (charges : Charges) (lines : List LeaseEvent) :
    ∃ added, (lines.foldl Charges.add charges).debits = charges.debits ++ added := by
  induction lines generalizing charges with
  | nil => exact ⟨[], by simp⟩
  | cons event rest ih =>
    obtain ⟨first, hfirst, -⟩ := charges.add_debits event
    obtain ⟨added, hadded⟩ := ih (charges.add event)
    exact ⟨first ++ added, by rw [List.foldl_cons, hadded, hfirst, List.append_assoc]⟩

theorem foldlM_rebuildEvent_ok {pools : Dict String PoolConfig} {now : Time}
    {lines : List LeaseEvent} {state : RebuildState} {charges : Charges}
    (h : state.Reflects pools now charges)
    (hends : WindowsEnd pools (lines.foldl Charges.add charges).debits)
    (htotal : ∀ pool,
      usageOf (liveDebits pools now pool (lines.foldl Charges.add charges).debits) ≤ u64Max) :
    ∃ state', lines.foldlM (rebuildEvent pools now) state = .ok state' := by
  induction lines generalizing state charges with
  | nil => exact ⟨state, rfl⟩
  | cons event rest ih =>
    rw [List.foldl_cons] at hends htotal
    obtain ⟨added, hadded⟩ := foldl_add_debits (charges.add event) rest
    have hstep : ∃ mid, rebuildEvent pools now state event = .ok mid := by
      apply rebuildEvent_ok h
      · rw [hadded] at hends
        exact hends.sublist (List.sublist_append_left ..)
      · intro pool
        refine Nat.le_trans (usageOf_le_of_sublist ?_) (htotal pool)
        rw [hadded, liveDebits_append]
        exact List.sublist_append_left ..
    obtain ⟨mid, hs⟩ := hstep
    rw [List.foldlM_cons, hs]
    exact ih (rebuildEvent_reflects h hs) hends htotal

theorem reflects_empty (pools : Dict String PoolConfig) (now : Time) :
    RebuildState.Reflects pools now {} {} :=
  ⟨rfl, rfl, ⟨by simp [WindowsEnd], fun _ => rfl, fun _ => rfl⟩⟩

/-- Every line has the schema version that this program writes. -/
def Readable (log : LeaseEventLog) : Prop := ∀ event ∈ log.lines, event.schemaVersion = 1

theorem Readable.read {log : LeaseEventLog} (h : Readable log) (hwhole : log.garbled = false) :
    log.read = .ok log.lines := by
  have hnone : (log.lines.find? fun event => event.schemaVersion ≠ 1) = none := by
    rw [List.find?_eq_none]
    intro event hevent
    simp [h event hevent]
  rw [LeaseEventLog.read, if_neg (by simp [hwhole]), hnone]

/-- A log that is read has no garbled line. -/
theorem LeaseEventLog.whole_of_read {log : LeaseEventLog} {lines : List LeaseEvent}
    (h : log.read = .ok lines) : log.garbled = false := by
  rw [LeaseEventLog.read] at h
  split at h
  · cases h
  · next hwhole => simpa using hwhole

/-- What the snapshot says about the log. -/
structure WindowUsageSnapshot.Of (pools : Dict String PoolConfig) (now : Time)
    (lines : List LeaseEvent) (snapshot : WindowUsageSnapshot) : Prop where
  ends : WindowsEnd pools (chargesOf lines).debits
  keys : snapshot.debitedAdmissions = (chargesOf lines).keys
  debits : ∀ pool, (snapshot.debits.get? pool).getD [] =
    liveDebits pools now pool (chargesOf lines).debits
  usage : ∀ pool, (snapshot.usage.get? pool).getD 0 =
    usageOf (liveDebits pools now pool (chargesOf lines).debits)

theorem rebuildWindowUsage_of {pools : Dict String PoolConfig} {log : LeaseEventLog}
    {witnessRecords : Nat} {now : Time} {snapshot : WindowUsageSnapshot} (hread : Readable log)
    (h : rebuildWindowUsage pools log witnessRecords now = .ok snapshot) :
    log.garbled = false ∧ snapshot.Of pools now log.lines := by
  rw [rebuildWindowUsage] at h
  cases hlines : log.read with
  | error error =>
    rw [hlines] at h
    cases h
  | ok lines =>
    have hwhole := log.whole_of_read hlines
    rw [hread.read hwhole] at hlines
    cases hlines
    rw [hread.read hwhole] at h
    dsimp only at h
    cases hs : log.lines.foldlM (rebuildEvent pools now) {} with
    | error error =>
      rw [hs] at h
      cases h
    | ok state =>
      rw [hs] at h
      cases h
      obtain ⟨-, hkeys, hcounts⟩ := foldlM_rebuildEvent_reflects (reflects_empty pools now) hs
      exact ⟨hwhole, hcounts.ends, hkeys, hcounts.debits, hcounts.usage⟩

/-- The rebuild succeeds if the log is whole, the windows can be computed and no total overflows. -/
theorem rebuildWindowUsage_ok {pools : Dict String PoolConfig} {log : LeaseEventLog}
    (witnessRecords : Nat) {now : Time} (hread : Readable log) (hwhole : log.garbled = false)
    (hends : WindowsEnd pools (chargesOf log.lines).debits)
    (htotal : ∀ pool,
      usageOf (liveDebits pools now pool (chargesOf log.lines).debits) ≤ u64Max) :
    ∃ snapshot, rebuildWindowUsage pools log witnessRecords now = .ok snapshot := by
  obtain ⟨state, hs⟩ := foldlM_rebuildEvent_ok (reflects_empty pools now) hends htotal
  rw [rebuildWindowUsage, hread.read hwhole]
  dsimp only
  rw [hs]
  exact ⟨_, rfl⟩

end Tally.Lease
