import Tally.Lease.Engine

/-!
# The admission test

`canGrant` and the budget queries rewrite the pools they look at: debits that have left the window
are dropped. This module says what they leave behind (`PruneOf`) and what their answer means
(`Fits`), independently of what was pruned before.
-/

namespace Tally.Lease

/-! ## Sums of amounts -/

/-- The amounts add up. -/
def usageOf (debits : List BudgetDebit) : Nat := (debits.map (·.amount)).sum

theorem usageOf_append (l l' : List BudgetDebit) : usageOf (l ++ l') = usageOf l + usageOf l' := by
  simp [usageOf]

theorem usageOf_le_of_sublist {l l' : List BudgetDebit} (h : l.Sublist l') :
    usageOf l ≤ usageOf l' :=
  (h.map _).sum_le_sum fun _ _ => Nat.zero_le _

theorem checkedSum_eq {amounts : List Nat} {sum : Nat} (h : checkedSum amounts = some sum) :
    sum = amounts.sum ∧ amounts.sum ≤ u64Max := by
  suffices hacc : ∀ start, start ≤ u64Max → amounts.foldlM (fun sum amount =>
      if sum + amount ≤ u64Max then some (sum + amount) else none) start = some sum →
      sum = start + amounts.sum ∧ start + amounts.sum ≤ u64Max by
    have := hacc 0 (Nat.zero_le _) h
    rwa [Nat.zero_add] at this
  clear h
  induction amounts with
  | nil =>
    intro start hstart hfold
    cases hfold
    exact ⟨rfl, hstart⟩
  | cons amount rest ih =>
    intro start hstart hfold
    rw [List.foldlM_cons] at hfold
    by_cases hsmall : start + amount ≤ u64Max
    · rw [if_pos hsmall] at hfold
      obtain ⟨hsum, hle⟩ := ih (start + amount) hsmall hfold
      rw [List.sum_cons]
      omega
    · rw [if_neg hsmall] at hfold
      cases hfold

theorem checkedSum_of_le {amounts : List Nat} (h : amounts.sum ≤ u64Max) :
    checkedSum amounts = some amounts.sum := by
  suffices hacc : ∀ start, start + amounts.sum ≤ u64Max → amounts.foldlM (fun sum amount =>
      if sum + amount ≤ u64Max then some (sum + amount) else none) start =
        some (start + amounts.sum) by
    have := hacc 0 (by omega)
    rwa [Nat.zero_add] at this
  clear h
  induction amounts with
  | nil =>
    intro start _
    rfl
  | cons amount rest ih =>
    intro start hle
    rw [List.sum_cons] at hle ⊢
    rw [List.foldlM_cons, if_pos (by omega)]
    have hrest := ih (start + amount) (by omega)
    rw [Nat.add_assoc] at hrest
    exact hrest

/-! ## The ends of windows -/

/-- The stamp of the debit can be parsed, and the end of its window is an instant that there is. -/
def Dated (window : Int) (debit : BudgetDebit) : Prop :=
  (yearZero ≤ debit.admittedAt ∧ debit.admittedAt < yearTenThousand) ∧
    debit.admittedAt + window ≤ maxUtc

instance (window : Int) (debit : BudgetDebit) : Decidable (Dated window debit) :=
  inferInstanceAs (Decidable (_ ∧ _))

/-- The debit is seen to have left the window. -/
def expired (window now : Time) (debit : BudgetDebit) : Bool :=
  decide (Dated window debit ∧ debit.admittedAt + window ≤ now)

theorem windowEnd_dated {window : Int} {debit : BudgetDebit} (h : Dated window debit) :
    windowEnd window debit = .ok (debit.admittedAt + window) := by
  obtain ⟨hstamp, hstop⟩ := h
  simp only [windowEnd, parseTimestamp, addDuration, if_pos hstamp, if_pos hstop]

theorem windowEnd_undated {window : Int} {debit : BudgetDebit} (h : ¬ Dated window debit) :
    ∃ error, windowEnd window debit = .error error := by
  by_cases hstamp : yearZero ≤ debit.admittedAt ∧ debit.admittedAt < yearTenThousand
  · have hstop : ¬ debit.admittedAt + window ≤ maxUtc := fun hstop => h ⟨hstamp, hstop⟩
    refine ⟨.panicked, ?_⟩
    simp only [windowEnd, parseTimestamp, addDuration, if_pos hstamp, if_neg hstop]
  · refine ⟨.invalidRequest "invalid debit time: input contains invalid characters", ?_⟩
    simp only [windowEnd, parseTimestamp, if_neg hstamp]

theorem windowEnd_ok {window : Int} {debit : BudgetDebit} {stop : Time}
    (h : windowEnd window debit = .ok stop) :
    Dated window debit ∧ stop = debit.admittedAt + window := by
  by_cases hdated : Dated window debit
  · rw [windowEnd_dated hdated] at h
    cases h
    exact ⟨hdated, rfl⟩
  · obtain ⟨error, herror⟩ := windowEnd_undated hdated
    rw [herror] at h
    cases h

/-- What the loop leaves, and that it fails only at a debit whose end it needs. -/
theorem dropExpired_spec (window : Int) (now : Time) (debits : List BudgetDebit) :
    (dropExpired window now debits).2 = debits.dropWhile (expired window now) ∧
      ((dropExpired window now debits).1 = .ok () ↔
        ∀ debit ∈ (debits.dropWhile (expired window now)).head?, Dated window debit) := by
  induction debits with
  | nil => exact ⟨rfl, iff_of_true rfl (by simp)⟩
  | cons debit rest ih =>
    rw [dropExpired]
    by_cases hdated : Dated window debit
    · rw [windowEnd_dated hdated]
      dsimp only
      by_cases hout : debit.admittedAt + window ≤ now
      · have hexpired : expired window now debit = true := decide_eq_true ⟨hdated, hout⟩
        rw [if_pos hout, List.dropWhile_cons_of_pos hexpired]
        exact ih
      · have hexpired : ¬ expired window now debit = true := fun h => hout (of_decide_eq_true h).2
        rw [if_neg hout, List.dropWhile_cons_of_neg hexpired]
        exact ⟨rfl, iff_of_true rfl (by simpa using hdated)⟩
    · obtain ⟨error, herror⟩ := windowEnd_undated hdated
      have hexpired : ¬ expired window now debit = true := fun h => hdated (of_decide_eq_true h).1
      rw [herror, List.dropWhile_cons_of_neg hexpired]
      exact ⟨rfl, iff_of_false (by simp) (by simpa using hdated)⟩

/-- Dropping twice is dropping once, and it fails or succeeds alike. -/
theorem dropExpired_idem (window : Int) (now : Time) (debits : List BudgetDebit) :
    dropExpired window now (dropExpired window now debits).2 = dropExpired window now debits := by
  induction debits with
  | nil => rfl
  | cons debit rest ih =>
    rw [dropExpired]
    cases hend : windowEnd window debit with
    | error error =>
      dsimp only
      rw [dropExpired, hend]
    | ok stop =>
      dsimp only
      by_cases hout : stop ≤ now
      · rw [if_pos hout]
        exact ih
      · rw [if_neg hout, dropExpired, hend]
        dsimp only
        rw [if_neg hout]

theorem expired_mono {window now now' : Time} {debit : BudgetDebit} (hle : now ≤ now')
    (h : expired window now debit) : expired window now' debit := by
  simp only [expired, decide_eq_true_eq] at h ⊢
  exact ⟨h.1, Int.le_trans h.2 hle⟩

/-! ## Pools under pruning -/

/-- The pool with the debits dropped that have left the window at `now`. -/
def RuntimePool.prune (now : Time) (state : RuntimePool) : RuntimePool := (pruneDebits state now).2

@[simp] theorem RuntimePool.prune_config (now : Time) (state : RuntimePool) :
    (state.prune now).config = state.config := by
  unfold prune pruneDebits
  cases state.config.predicate with
  | coResidency => rfl
  | windowedConsumption window =>
    dsimp only
    cases windowDuration window <;> rfl

@[simp] theorem RuntimePool.prune_holders (now : Time) (state : RuntimePool) :
    (state.prune now).holders = state.holders := by
  unfold prune pruneDebits
  cases state.config.predicate with
  | coResidency => rfl
  | windowedConsumption window =>
    dsimp only
    cases windowDuration window <;> rfl

/-- Pruning twice is pruning once, and it fails or succeeds alike. -/
theorem pruneDebits_prune (now : Time) (state : RuntimePool) :
    pruneDebits (state.prune now) now = pruneDebits state now := by
  unfold RuntimePool.prune pruneDebits
  cases h : state.config.predicate with
  | coResidency => simp only [h]
  | windowedConsumption window =>
    dsimp only
    cases hw : windowDuration window with
    | error error => simp only [h, hw]
    | ok w => simp only [h, hw, dropExpired_idem]

@[simp] theorem RuntimePool.prune_prune (now : Time) (state : RuntimePool) :
    (state.prune now).prune now = state.prune now :=
  congrArg Prod.snd (pruneDebits_prune now state)

theorem windowDuration_eq {window : WindowedConsumptionPredicate}
    (h : window.windowSec ≤ maxDurationSec) :
    windowDuration window = .ok (window.windowSec * nanosPerSec) := by
  have hsmall : window.windowSec ≤ i64Max := Nat.le_trans h (Nat.div_le_self _ _)
  rw [windowDuration, if_pos hsmall, if_pos h]

theorem windowDuration_error {window : WindowedConsumptionPredicate}
    (h : ¬ window.windowSec ≤ maxDurationSec) : ∃ error, windowDuration window = .error error := by
  unfold windowDuration
  rw [if_neg h]
  split <;> exact ⟨_, rfl⟩

theorem windowDuration_ok {window : WindowedConsumptionPredicate} {duration : Int}
    (h : windowDuration window = .ok duration) :
    window.windowSec ≤ maxDurationSec ∧ duration = window.windowSec * nanosPerSec := by
  by_cases hsec : window.windowSec ≤ maxDurationSec
  · rw [windowDuration_eq hsec] at h
    cases h
    exact ⟨hsec, rfl⟩
  · obtain ⟨error, herror⟩ := windowDuration_error hsec
    rw [herror] at h
    cases h

/-- What `prune_debits` does to a windowed pool. -/
theorem pruneDebits_windowed {state : RuntimePool} {window : WindowedConsumptionPredicate}
    (hwindow : state.config.predicate = .windowedConsumption window) (now : Time) :
    (state.prune now).debits = (if window.windowSec ≤ maxDurationSec then
      state.debits.dropWhile (expired (window.windowSec * nanosPerSec) now) else state.debits) ∧
    ((pruneDebits state now).1 = .ok () ↔ window.windowSec ≤ maxDurationSec ∧
      ∀ debit ∈ (state.debits.dropWhile (expired (window.windowSec * nanosPerSec) now)).head?,
        Dated (window.windowSec * nanosPerSec) debit) := by
  unfold RuntimePool.prune pruneDebits
  rw [hwindow]
  by_cases hsec : window.windowSec ≤ maxDurationSec
  · simp only [windowDuration_eq hsec, hsec, if_true, true_and]
    exact dropExpired_spec ..
  · obtain ⟨error, herror⟩ := windowDuration_error hsec
    simp only [herror, hsec, if_false, false_and, reduceCtorEq, and_self]

/-- The errors of `prune_debits`. -/
def PruneError (error : LeaseError) : Prop :=
  error = .panicked ∨ error = .invalidRequest "windowSec is too large" ∨
    error = .invalidRequest "invalid debit time: input contains invalid characters"

theorem windowEnd_error {window : Int} {debit : BudgetDebit} {error : LeaseError}
    (h : windowEnd window debit = .error error) : PruneError error := by
  unfold windowEnd parseTimestamp addDuration at h
  split at h
  · next hstamp =>
    split at hstamp <;> cases hstamp
    cases h
    exact .inr (.inr rfl)
  · split at h <;> cases h
    exact .inl rfl

theorem dropExpired_error {window : Int} {now : Time} {debits : List BudgetDebit}
    {error : LeaseError} (h : (dropExpired window now debits).1 = .error error) :
    PruneError error := by
  induction debits with
  | nil => cases h
  | cons debit rest ih =>
    rw [dropExpired] at h
    cases hend : windowEnd window debit with
    | error found =>
      rw [hend] at h
      cases h
      exact windowEnd_error hend
    | ok stop =>
      rw [hend] at h
      dsimp only at h
      split at h
      · exact ih h
      · cases h

theorem pruneDebits_error {state : RuntimePool} {now : Time} {error : LeaseError}
    (h : (pruneDebits state now).1 = .error error) : PruneError error := by
  unfold pruneDebits windowDuration at h
  split at h
  · cases h
  · split at h
    · next hduration =>
      cases h
      split at hduration
      · split at hduration <;> cases hduration
        exact .inl rfl
      · cases hduration
        exact .inr (.inl rfl)
    · exact dropExpired_error h

theorem RuntimePool.prune_debits_sublist (state : RuntimePool) (now : Time) :
    (state.prune now).debits.Sublist state.debits := by
  cases hwindow : state.config.predicate with
  | coResidency =>
    unfold prune pruneDebits
    rw [hwindow]
  | windowedConsumption window =>
    rw [(pruneDebits_windowed hwindow now).1]
    split
    · exact List.dropWhile_sublist _
    · exact .refl _

/-- `poolAllows` leaves the pruned pool behind, whatever it answers. -/
theorem poolAllows_snd (pool : String) (state : RuntimePool) (request : LeaseRequest)
    (now : Time) : (poolAllows pool state request now).2 = state.prune now := by
  unfold poolAllows RuntimePool.prune
  cases h : state.config.predicate with
  | coResidency => simp [pruneDebits, h]
  | windowedConsumption window =>
    dsimp only
    rcases pruneDebits state now with ⟨error | _, pruned⟩
    · rfl
    · dsimp only
      cases checkedSum (pruned.debits.map (·.amount)) <;> rfl

/-- The answer of `poolAllows` does not depend on whether the pool was pruned before. -/
theorem poolAllows_prune (pool : String) (state : RuntimePool) (request : LeaseRequest)
    (now : Time) :
    (poolAllows pool (state.prune now) request now).1 = (poolAllows pool state request now).1 := by
  unfold poolAllows
  rw [RuntimePool.prune_config, pruneDebits_prune]
  cases state.config.predicate with
  | coResidency => simp
  | windowedConsumption window => rfl

/-- The pool has room for the request, once it is pruned. -/
def RuntimePool.Takes (state : RuntimePool) (request : LeaseRequest) (now : Time) : Prop :=
  match state.config.predicate with
  | .coResidency => state.holders.card < state.config.capacity
  | .windowedConsumption window => window.windowSec ≤ maxDurationSec ∧
      usageOf (state.prune now).debits + request.consumptionEstimate.getD 0 ≤
        min u64Max window.consumptionCap

theorem RuntimePool.takes_coResidency {state : RuntimePool}
    (h : state.config.predicate = .coResidency) {request : LeaseRequest} {now : Time} :
    state.Takes request now ↔ state.holders.card < state.config.capacity := by
  rw [Takes, h]

theorem RuntimePool.takes_windowed {state : RuntimePool} {window : WindowedConsumptionPredicate}
    (h : state.config.predicate = .windowedConsumption window) {request : LeaseRequest} {now : Time} :
    state.Takes request now ↔ window.windowSec ≤ maxDurationSec ∧
      usageOf (state.debits.dropWhile (expired (window.windowSec * nanosPerSec) now)) +
        request.consumptionEstimate.getD 0 ≤ min u64Max window.consumptionCap := by
  rw [Takes, h]
  dsimp only
  constructor
  · rintro ⟨hsec, hbudget⟩
    rw [(pruneDebits_windowed h now).1, if_pos hsec] at hbudget
    exact ⟨hsec, hbudget⟩
  · rintro ⟨hsec, hbudget⟩
    rw [(pruneDebits_windowed h now).1, if_pos hsec]
    exact ⟨hsec, hbudget⟩

@[simp] theorem RuntimePool.takes_prune {state : RuntimePool} {request : LeaseRequest} {now : Time} :
    (state.prune now).Takes request now ↔ state.Takes request now := by
  unfold Takes
  rw [prune_config]
  cases state.config.predicate with
  | coResidency => simp
  | windowedConsumption window => simp

/-- A pool that gives an answer takes the request if it says so. -/
theorem poolAllows_ok {pool : String} {state : RuntimePool} {request : LeaseRequest} {now : Time}
    {allowed : Bool} (h : (poolAllows pool state request now).1 = .ok allowed) :
    allowed = true ↔ state.Takes request now := by
  unfold poolAllows at h
  cases hpredicate : state.config.predicate with
  | coResidency =>
    rw [hpredicate] at h
    cases h
    rw [RuntimePool.takes_coResidency hpredicate, decide_eq_true_iff]
  | windowedConsumption window =>
    rw [hpredicate] at h
    dsimp only at h
    have hsec := (pruneDebits_windowed hpredicate now).2
    rcases hp : pruneDebits state now with ⟨error | _, pruned⟩
    · rw [hp] at h
      cases h
    · rw [hp] at h hsec
      have hpruned : state.prune now = pruned := congrArg Prod.snd hp
      dsimp only at h
      cases hsum : checkedSum (pruned.debits.map (·.amount)) with
      | none =>
        rw [hsum] at h
        cases h
      | some used =>
        rw [hsum] at h
        cases h
        obtain ⟨rfl, -⟩ := checkedSum_eq hsum
        rw [RuntimePool.Takes, hpredicate]
        simp only [(hsec.mp rfl).1, true_and, hpruned, usageOf, Bool.and_eq_true, decide_eq_true_eq,
          le_min_iff]

/-- A pool whose window can be computed gives an answer, and it takes what it has room for. -/
theorem poolAllows_of_takes {state : RuntimePool} {request : LeaseRequest} {now : Time}
    (h : state.Takes request now) (hpruned : (pruneDebits state now).1 = .ok ()) (pool : String) :
    (poolAllows pool state request now).1 = .ok true := by
  have htakes := h
  unfold RuntimePool.Takes at h
  unfold poolAllows
  cases hpredicate : state.config.predicate with
  | coResidency =>
    rw [hpredicate] at h
    exact congrArg _ (decide_eq_true h)
  | windowedConsumption window =>
    rw [hpredicate] at h
    obtain ⟨-, hbudget⟩ := h
    rcases hp : pruneDebits state now with ⟨error | _, pruned⟩
    · rw [hp] at hpruned
      cases hpruned
    · have hsame : state.prune now = pruned := congrArg Prod.snd hp
      rw [hsame] at hbudget
      have hsum : checkedSum (pruned.debits.map (·.amount)) = some (usageOf pruned.debits) := by
        refine checkedSum_of_le ?_
        unfold usageOf at hbudget
        omega
      dsimp only
      rw [hsum]
      rw [le_min_iff] at hbudget
      simp only [hbudget.1, hbudget.2, decide_true, Bool.and_self]

theorem pruneDebits_coResidency {state : RuntimePool} (h : state.config.predicate = .coResidency)
    (now : Time) : (pruneDebits state now).1 = .ok () := by
  rw [pruneDebits, h]

/-- What a windowed pool asks of a request. -/
theorem poolAllows_windowed_iff {state : RuntimePool} {window : WindowedConsumptionPredicate}
    (hwindow : state.config.predicate = .windowedConsumption window) (pool : String)
    (request : LeaseRequest) (now : Time) :
    (poolAllows pool state request now).1 = .ok true ↔
      (∀ debit ∈ (state.debits.dropWhile (expired (window.windowSec * nanosPerSec) now)).head?,
        Dated (window.windowSec * nanosPerSec) debit) ∧ state.Takes request now := by
  constructor
  · intro h
    refine ⟨?_, (poolAllows_ok h).mp rfl⟩
    have hpruned : (pruneDebits state now).1 = .ok () := by
      unfold poolAllows at h
      rw [hwindow] at h
      dsimp only at h
      rcases hp : pruneDebits state now with ⟨error | _, pruned⟩
      · rw [hp] at h
        cases h
      · rfl
    exact ((pruneDebits_windowed hwindow now).2.mp hpruned).2
  · rintro ⟨hdated, htakes⟩
    refine poolAllows_of_takes htakes ?_ pool
    exact (pruneDebits_windowed hwindow now).2.mpr
      ⟨((RuntimePool.takes_windowed hwindow).mp htakes).1, hdated⟩

/-- `engine'` is `engine` with the debits of some pools pruned. -/
structure PruneOf (now : Time) (engine engine' : LeaseEngine) : Prop where
  frame : engine' = { engine with pools := engine'.pools }
  pools : ∀ pool, engine'.pools.get? pool = engine.pools.get? pool ∨
    engine'.pools.get? pool = (engine.pools.get? pool).map (·.prune now)

namespace PruneOf

theorem rfl' {now : Time} {engine : LeaseEngine} : PruneOf now engine engine :=
  ⟨rfl, fun _ => .inl rfl⟩

section Frame

variable {now : Time} {a b : LeaseEngine}

theorem epoch_eq (h : PruneOf now a b) : b.epoch = a.epoch := by rw [h.frame]

theorem held_eq (h : PruneOf now a b) : b.held = a.held := by rw [h.frame]

theorem pending_eq (h : PruneOf now a b) : b.pending = a.pending := by rw [h.frame]

theorem trace_eq (h : PruneOf now a b) : b.trace = a.trace := by rw [h.frame]

theorem nextSequence_eq (h : PruneOf now a b) : b.nextSequence = a.nextSequence := by rw [h.frame]

theorem debitedAdmissions_eq (h : PruneOf now a b) : b.debitedAdmissions = a.debitedAdmissions := by
  rw [h.frame]

theorem events_eq (h : PruneOf now a b) : b.events = a.events := by rw [h.frame]

end Frame

theorem trans {now : Time} {a b c : LeaseEngine} (h : PruneOf now a b) (h' : PruneOf now b c) :
    PruneOf now a c := by
  refine ⟨by rw [h'.frame, h.frame], fun pool => ?_⟩
  rcases h.pools pool with hb | hb <;> rcases h'.pools pool with hc | hc
  · exact .inl (hc.trans hb)
  · exact .inr (hc.trans (by rw [hb]))
  · exact .inr (hc.trans hb)
  · refine .inr (hc.trans ?_)
    rw [hb, Option.map_map]
    congr 1
    funext state
    exact state.prune_prune now

/-- A pool that is there stays there, with the same configuration and holders. -/
theorem get?_some {now : Time} {a b : LeaseEngine} (h : PruneOf now a b) {pool : String}
    {state : RuntimePool} (hs : a.pools.get? pool = some state) :
    ∃ state', b.pools.get? pool = some state' ∧ (state' = state ∨ state' = state.prune now) := by
  rcases h.pools pool with hb | hb
  · exact ⟨state, hb.trans hs, .inl rfl⟩
  · exact ⟨state.prune now, by rw [hb, hs]; rfl, .inr rfl⟩

theorem get?_none {now : Time} {a b : LeaseEngine} (h : PruneOf now a b) {pool : String}
    (hs : a.pools.get? pool = none) : b.pools.get? pool = none := by
  rcases h.pools pool with hb | hb
  · exact hb.trans hs
  · rw [hb, hs]; rfl

/-- Every pool of the pruned engine comes from a pool of the engine. -/
theorem get?_inv {now : Time} {a b : LeaseEngine} (h : PruneOf now a b) {pool : String}
    {state' : RuntimePool} (hs : b.pools.get? pool = some state') :
    ∃ state, a.pools.get? pool = some state ∧ (state' = state ∨ state' = state.prune now) := by
  cases ha : a.pools.get? pool with
  | none => rw [h.get?_none ha] at hs; cases hs
  | some state =>
    obtain ⟨state'', hs'', h''⟩ := h.get?_some ha
    rw [hs] at hs''
    cases hs''
    exact ⟨state, rfl, h''⟩

end PruneOf

theorem exec_withPool {α : Type} (pool : String)
    (f : RuntimePool → Except LeaseError α × RuntimePool) (engine : LeaseEngine) :
    (withPool pool f).exec engine = match engine.pools.get? pool with
      | none => (.error (.unknownPool pool), engine)
      | some state =>
        ((f state).1, { engine with pools := engine.pools.insert pool (f state).2 }) := by
  rw [withPool, Eff.exec_bind]
  simp only [Eff.exec_get]
  cases engine.pools.get? pool with
  | none => rfl
  | some state =>
    rw [Eff.exec_bind]
    simp only [Eff.exec_set]
    cases (f state).1 <;> rfl

/-- An in-place computation that leaves the pruned pool behind prunes the engine. -/
theorem withPool_pruneOf {α : Type} {pool : String} {now : Time}
    {f : RuntimePool → Except LeaseError α × RuntimePool}
    (hf : ∀ state, (f state).2 = state.prune now) (engine : LeaseEngine) :
    PruneOf now engine ((withPool pool f).exec engine).2 := by
  rw [exec_withPool]
  cases h : engine.pools.get? pool with
  | none => exact .rfl'
  | some state =>
    refine ⟨rfl, fun q => ?_⟩
    simp only [hf, Dict.get?_insert]
    split
    · next hq => rw [hq, h]; exact .inr rfl
    · exact .inl rfl

theorem exec_withPool_pruneOf {α : Type} {pool : String} {now : Time}
    {f : RuntimePool → Except LeaseError α × RuntimePool} {engine engine' : LeaseEngine}
    {result : Except LeaseError α} (hf : ∀ state, (f state).2 = state.prune now)
    (h : (withPool pool f).exec engine = (result, engine')) : PruneOf now engine engine' := by
  have hp := @withPool_pruneOf _ pool _ _ hf engine
  rwa [h] at hp

namespace LeaseEngine

/-! ## Admission test -/

/-- Every pool of the request has room for it. -/
def Fits (engine : LeaseEngine) (request : LeaseRequest) (now : Time) : Prop :=
  ∀ pool ∈ request.pools, ∃ state, engine.pools.get? pool = some state ∧
    state.Takes (engine.effectiveRequest request) now

/-- Some pool of the request is not open, or its window cannot be summed up. -/
def Stuck (engine : LeaseEngine) (request : LeaseRequest) (now : Time) : Prop :=
  ∃ pool ∈ request.pools, engine.pools.get? pool = none ∨ ∃ state error,
    engine.pools.get? pool = some state ∧
      (poolAllows pool state (engine.effectiveRequest request) now).1 = .error error

/-- The debits of these pools have been pruned. -/
def PrunedAt (engine : LeaseEngine) (pools : List String) (now : Time) : Prop :=
  ∀ pool ∈ pools, ∀ state, engine.pools.get? pool = some state → state.prune now = state

/-- What `poolsAllow` finds out about a list of pools. -/
structure AllowSpec (effective : LeaseRequest) (now : Time) (pools : List String)
    (engine : LeaseEngine) (result : Except LeaseError Bool) (engine' : LeaseEngine) : Prop where
  pruneOf : PruneOf now engine engine'
  allowed : result = .ok true → engine'.PrunedAt pools now ∧ ∀ pool ∈ pools, ∃ state,
    engine.pools.get? pool = some state ∧ (poolAllows pool state effective now).1 = .ok true
  refused : result = .ok false → ∃ pool ∈ pools, ∃ state,
    engine.pools.get? pool = some state ∧ (poolAllows pool state effective now).1 = .ok false
  failed : ∀ error, result = .error error → ∃ pool ∈ pools,
    engine.pools.get? pool = none ∨ ∃ state, engine.pools.get? pool = some state ∧
      (poolAllows pool state effective now).1 = .error error

theorem AllowSpec.cons {effective : LeaseRequest} {now : Time} {pool : String}
    {rest : List String} {engine : LeaseEngine} {state : RuntimePool}
    {result : Except LeaseError Bool} {engine' : LeaseEngine}
    (hs : engine.pools.get? pool = some state)
    (hallow : (poolAllows pool state effective now).1 = .ok true)
    (ih : AllowSpec effective now rest
      { engine with pools := engine.pools.insert pool (state.prune now) } result engine') :
    AllowSpec effective now (pool :: rest) engine result engine' := by
  have hprune : PruneOf now engine
      { engine with pools := engine.pools.insert pool (state.prune now) } := by
    refine ⟨rfl, fun q => ?_⟩
    simp only [Dict.get?_insert]
    split
    · next hq => rw [hq, hs]; exact .inr rfl
    · exact .inl rfl
  -- the answer for a pool is the same before and after the head has been pruned
  have hback : ∀ {q : String} {s : RuntimePool} {r : Except LeaseError Bool},
      (engine.pools.insert pool (state.prune now)).get? q = some s →
      (poolAllows q s effective now).1 = r → ∃ s', engine.pools.get? q = some s' ∧
        (poolAllows q s' effective now).1 = r := by
    intro q s r hq hr
    obtain ⟨s', hs', h | h⟩ := hprune.get?_inv hq
    · exact ⟨s', hs', h ▸ hr⟩
    · exact ⟨s', hs', by rw [← hr, h, poolAllows_prune]⟩
  refine ⟨hprune.trans ih.pruneOf, fun hr => ?_, fun hr => ?_, fun error hr => ?_⟩
  · obtain ⟨hpruned, hrest⟩ := ih.allowed hr
    refine ⟨?_, ?_⟩
    · rintro q (_ | ⟨_, hq⟩) s hs'
      · obtain ⟨s₀, hs₀, h⟩ := ih.pruneOf.get?_inv hs'
        simp only [Dict.get?_insert_self, Option.some.injEq] at hs₀
        subst hs₀
        rcases h with rfl | rfl <;> simp
      · exact hpruned q hq s hs'
    · rintro q (_ | ⟨_, hq⟩)
      · exact ⟨state, hs, hallow⟩
      · obtain ⟨s, hs', h⟩ := hrest q hq
        exact hback hs' h
  · obtain ⟨q, hq, s, hs', h⟩ := ih.refused hr
    obtain ⟨s', hs'', h'⟩ := hback hs' h
    exact ⟨q, List.mem_cons_of_mem _ hq, s', hs'', h'⟩
  · obtain ⟨q, hq, hnone | ⟨s, hs', h⟩⟩ := ih.failed error hr
    · refine ⟨q, List.mem_cons_of_mem _ hq, .inl ?_⟩
      simp only [Dict.get?_insert] at hnone
      split at hnone
      · cases hnone
      · exact hnone
    · obtain ⟨s', hs'', h'⟩ := hback hs' h
      exact ⟨q, List.mem_cons_of_mem _ hq, .inr ⟨s', hs'', h'⟩⟩

theorem poolsAllow_spec (effective : LeaseRequest) (now : Time) (pools : List String)
    (engine : LeaseEngine) :
    AllowSpec effective now pools engine ((poolsAllow effective now pools).exec engine).1
      ((poolsAllow effective now pools).exec engine).2 := by
  induction pools generalizing engine with
  | nil => exact ⟨.rfl', by simp [poolsAllow, PrunedAt], by simp [poolsAllow], by simp [poolsAllow]⟩
  | cons pool rest ih =>
    have hp : PruneOf now engine
        ((withPool pool (poolAllows pool · effective now)).exec engine).2 :=
      withPool_pruneOf (fun s => poolAllows_snd pool s effective now) engine
    rw [poolsAllow, Eff.exec_bind]
    rw [exec_withPool] at hp ⊢
    cases hs : engine.pools.get? pool with
    | none =>
      refine ⟨.rfl', by simp, by simp, fun error _ => ⟨pool, List.mem_cons_self, .inl hs⟩⟩
    | some state =>
      rw [hs] at hp
      cases ha : (poolAllows pool state effective now).1 with
      | error error =>
        simp only [ha] at hp ⊢
        refine ⟨hp, by simp, by simp, fun error' h => ?_⟩
        cases h
        exact ⟨pool, List.mem_cons_self, .inr ⟨state, hs, ha⟩⟩
      | ok allowed =>
        simp only [ha] at hp ⊢
        cases allowed with
        | true =>
          rw [poolAllows_snd]
          exact .cons hs ha (ih _)
        | false =>
          exact ⟨hp, by simp, fun _ => ⟨pool, List.mem_cons_self, state, hs, ha⟩, by simp⟩

/-- `canGrant` prunes and answers whether the request fits. -/
theorem canGrant_spec {request : LeaseRequest} {now : Time} {engine engine' : LeaseEngine}
    {result : Except LeaseError Bool}
    (h : (canGrant request now).exec engine = (result, engine')) :
    PruneOf now engine engine' ∧
      (result = .ok true → engine.Fits request now ∧ engine'.PrunedAt request.pools now) ∧
      (result = .ok false → ¬ engine.Fits request now) ∧
      (∀ error, result = .error error → engine.Stuck request now) := by
  have hspec := poolsAllow_spec (engine.effectiveRequest request) now request.pools engine
  have hexec : (canGrant request now).exec engine =
      (poolsAllow (engine.effectiveRequest request) now request.pools).exec engine := by
    rw [canGrant, Eff.exec_bind, Eff.exec_get]
  rw [← hexec, h] at hspec
  refine ⟨hspec.pruneOf, fun hr => ?_, fun hr hfits => ?_, fun error hr => ?_⟩
  · obtain ⟨hpruned, hall⟩ := hspec.allowed hr
    refine ⟨fun pool hpool => ?_, hpruned⟩
    obtain ⟨state, hs, htrue⟩ := hall pool hpool
    exact ⟨state, hs, (poolAllows_ok htrue).mp rfl⟩
  · obtain ⟨pool, hpool, state, hs, hfalse⟩ := hspec.refused hr
    obtain ⟨state', hs', htakes⟩ := hfits pool hpool
    rw [hs] at hs'
    cases hs'
    cases (poolAllows_ok hfalse).mpr htakes
  · obtain ⟨pool, hpool, hnone | ⟨state, hs, herror⟩⟩ := hspec.failed error hr
    · exact ⟨pool, hpool, .inl hnone⟩
    · exact ⟨pool, hpool, .inr ⟨state, error, hs, herror⟩⟩

/-- Whether a request fits does not depend on what has been pruned. -/
theorem fits_pruneOf {request : LeaseRequest} {now : Time} {engine engine' : LeaseEngine}
    (hp : PruneOf now engine engine') :
    engine'.Fits request now ↔ engine.Fits request now := by
  have heff : engine'.effectiveRequest request = engine.effectiveRequest request := by
    rw [hp.frame]; rfl
  constructor
  · intro h pool hpool
    obtain ⟨state', hs', ha⟩ := h pool hpool
    obtain ⟨state, hs, h'⟩ := hp.get?_inv hs'
    refine ⟨state, hs, ?_⟩
    rw [heff] at ha
    rcases h' with rfl | rfl
    · exact ha
    · exact RuntimePool.takes_prune.mp ha
  · intro h pool hpool
    obtain ⟨state, hs, ha⟩ := h pool hpool
    obtain ⟨state', hs', h'⟩ := hp.get?_some hs
    refine ⟨state', hs', ?_⟩
    rw [heff]
    rcases h' with rfl | rfl
    · exact ha
    · exact RuntimePool.takes_prune.mpr ha

theorem Stuck.of_pruneOf {request : LeaseRequest} {now : Time} {engine engine' : LeaseEngine}
    (hp : PruneOf now engine engine') (h : engine'.Stuck request now) :
    engine.Stuck request now := by
  have heff : engine'.effectiveRequest request = engine.effectiveRequest request := by
    rw [hp.frame]; rfl
  obtain ⟨pool, hpool, hnone | ⟨state', error, hs', herror⟩⟩ := h
  · refine ⟨pool, hpool, .inl ?_⟩
    cases hs : engine.pools.get? pool with
    | none => rfl
    | some state =>
      obtain ⟨state', hs', -⟩ := hp.get?_some hs
      rw [hnone] at hs'
      cases hs'
  · obtain ⟨state, hs, h'⟩ := hp.get?_inv hs'
    refine ⟨pool, hpool, .inr ⟨state, error, hs, ?_⟩⟩
    rw [heff] at herror
    rcases h' with rfl | rfl
    · exact herror
    · rwa [poolAllows_prune] at herror

theorem Fits.open {request : LeaseRequest} {now : Time} {engine : LeaseEngine}
    (h : engine.Fits request now) (pool : String) (hpool : pool ∈ request.pools) :
    ∃ state, engine.pools.get? pool = some state :=
  let ⟨state, hs, _⟩ := h pool hpool
  ⟨state, hs⟩

end LeaseEngine

end Tally.Lease
