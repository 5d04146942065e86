import Tally.Lease.Moves

/-!
# Calls as sequences of moves

One specification for each method of the engine, from the inner loops outwards. They say which moves
the method makes on every exit, and for a successful exit what its result means.
-/

namespace Tally.Lease

open Relation

theorem Move.moves {base : Nat} {now : Time} {own : LeaseRequest → Prop} {a b : LeaseEngine} (h : Move base now own a b) :
    Moves base now own a b := .single h

theorem PruneOf.moves {base : Nat} {now : Time} {own : LeaseRequest → Prop} {a b : LeaseEngine} (h : PruneOf now a b) :
    Moves base now own a b := .single (.prune h)

namespace LeaseEngine

/-! ## Reconciliation -/

section Prune

variable {now : Time} {a b : LeaseEngine}

theorem windowFits_pruneOf (h : PruneOf now a b) (request : LeaseRequest) :
    b.windowFits now request = a.windowFits now request := by
  funext pool
  unfold windowFits
  cases hs : a.pools.get? pool with
  | none => rw [h.get?_none hs]
  | some state =>
    obtain ⟨state', hs', h'⟩ := h.get?_some hs
    rw [hs']
    rcases h' with rfl | rfl
    · rfl
    · simp [poolAllows_prune]

theorem windowsFit_pruneOf (h : PruneOf now a b) : b.windowsFit now = a.windowsFit now := by
  funext p
  rw [windowsFit, windowsFit, windowFits_pruneOf h]

theorem yieldCandidate_pruneOf (h : PruneOf now a b) (state : RuntimePool)
    (reserved : Finset String) (pool ticketId : String) :
    b.yieldCandidate (state.prune now) reserved pool ticketId =
      a.yieldCandidate state reserved pool ticketId := by
  have heligible : b.eligible (state.prune now) reserved = a.eligible state reserved := by
    rw [h.frame]
    simp [eligible]
  rw [yieldCandidate, yieldCandidate, heligible]

theorem assignments_pruneOf (h : PruneOf now a b) (plan : YieldPlan) (ticketId : String)
    (pools : List String) : b.assignments plan ticketId pools = a.assignments plan ticketId pools := by
  induction pools with
  | nil => rfl
  | cons pool rest ih =>
    cases hs : a.pools.get? pool with
    | none => simp only [assignments, hs, h.get?_none hs, ih]
    | some state =>
      have hcandidate : ∀ state' reserved, state' = state ∨ state' = state.prune now →
          b.yieldCandidate state' reserved pool ticketId =
            a.yieldCandidate state reserved pool ticketId := by
        rintro state' reserved (rfl | rfl)
        · rw [h.frame]; rfl
        · exact yieldCandidate_pruneOf h state reserved pool ticketId
      obtain ⟨state', hs', h'⟩ := h.get?_some hs
      have hconfig : state'.config = state.config := by rcases h' with rfl | rfl <;> simp
      have hholders : state'.holders = state.holders := by rcases h' with rfl | rfl <;> simp
      simp only [assignments, hs, hs', ih, hconfig, hholders, hcandidate state' _ h']

theorem planFor_pruneOf (h : PruneOf now a b) (pending : List PendingRequest) (plan : YieldPlan) :
    b.planFor pending plan = a.planFor pending plan := by
  induction pending generalizing plan with
  | nil => rfl
  | cons p rest ih => simp only [planFor, assignments_pruneOf h, ih]

end Prune

theorem windowsAllow_spec {p : PendingRequest} {now : Time} {pools : List String}
    {engine engine' : LeaseEngine} {result : Except LeaseError Bool}
    (h : (windowsAllow p now pools).exec engine = (result, engine')) :
    PruneOf now engine engine' ∧
      ∀ allowed, result = .ok allowed → allowed = pools.all (engine.windowFits now p.request) := by
  induction pools generalizing engine with
  | nil => cases h; exact ⟨.rfl', fun _ h => by cases h; rfl⟩
  | cons pool rest ih =>
    rw [windowsAllow, Eff.exec_bind] at h
    simp only [Eff.exec_get] at h
    cases hs : engine.pools.get? pool with
    | none =>
      simp only [hs] at h
      obtain ⟨hp, hr⟩ := ih h
      exact ⟨hp, fun allowed ha => by simp [windowFits, hs, hr allowed ha]⟩
    | some state =>
      simp only [hs] at h
      cases hw : state.config.predicate.isWindowed with
      | false =>
        simp only [hw] at h
        obtain ⟨hp, hr⟩ := ih h
        exact ⟨hp, fun allowed ha => by simp [windowFits, hs, hw, hr allowed ha]⟩
      | true =>
        simp only [hw, if_true] at h
        have hpool : PruneOf now engine
            ((withPool pool (poolAllows pool · p.request now)).exec engine).2 :=
          withPool_pruneOf (fun s => poolAllows_snd pool s p.request now) engine
        have hexec := exec_withPool pool (poolAllows pool · p.request now) engine
        simp only [hs] at hexec
        rcases Eff.exec_bind_cases h with ⟨allowed, mid, hx, hrest⟩ | ⟨error, hx, rfl⟩
        · rw [hx] at hpool
          have hhead : (poolAllows pool state p.request now).1 = .ok allowed := by
            rw [hx] at hexec; exact (congrArg Prod.fst hexec).symm
          cases allowed with
          | true =>
            obtain ⟨hp, hr⟩ := ih hrest
            refine ⟨hpool.trans hp, fun allowed ha => ?_⟩
            rw [hr allowed ha, windowFits_pruneOf hpool, List.all_cons]
            simp [windowFits, hs, hhead]
          | false =>
            cases hrest
            refine ⟨hpool, fun allowed ha => ?_⟩
            cases ha
            simp [windowFits, hs, hw, hhead]
        · rw [hx] at hpool
          exact ⟨hpool, by simp⟩

theorem planInterrupts_spec {now : Time} {pending : List PendingRequest} {plan : YieldPlan}
    {engine engine' : LeaseEngine} {result : Except LeaseError YieldPlan}
    (h : (planInterrupts now pending plan).exec engine = (result, engine')) :
    PruneOf now engine engine' ∧ ∀ plan', result = .ok plan' →
      plan' = engine.planFor (pending.filter (engine.windowsFit now)) plan := by
  induction pending generalizing engine plan with
  | nil => cases h; exact ⟨.rfl', fun _ h => by cases h; rfl⟩
  | cons p rest ih =>
    rw [planInterrupts] at h
    rcases Eff.exec_bind_cases h with ⟨allowed, mid, hw, hrest⟩ | ⟨error, hw, rfl⟩
    · obtain ⟨hp, hr⟩ := windowsAllow_spec hw
      have hallowed : allowed = engine.windowsFit now p := hr allowed rfl
      -- the rest of the interrupts is planned on the pruned engine, with the same outcome
      have hback : ∀ plan, mid.planFor (rest.filter (mid.windowsFit now)) plan =
          engine.planFor (rest.filter (engine.windowsFit now)) plan := fun plan => by
        rw [windowsFit_pruneOf hp, planFor_pruneOf hp]
      cases allowed with
      | false =>
        obtain ⟨hp', hr'⟩ := ih hrest
        refine ⟨hp.trans hp', fun plan' hplan => ?_⟩
        rw [hr' plan' hplan, hback, List.filter_cons_of_neg (by simp [← hallowed])]
      | true =>
        rw [List.filter_cons_of_pos (by rw [← hallowed]), planFor, ← assignments_pruneOf hp]
        rw [if_pos rfl, Eff.exec_bind] at hrest
        simp only [Eff.exec_get] at hrest
        cases ha : mid.assignments plan p.ticketId p.request.pools with
        | none =>
          rw [ha] at hrest
          obtain ⟨hp', hr'⟩ := ih hrest
          exact ⟨hp.trans hp', fun plan' hplan => (hr' plan' hplan).trans (hback _)⟩
        | some assigned =>
          rw [ha] at hrest
          obtain ⟨hp', hr'⟩ := ih hrest
          exact ⟨hp.trans hp', fun plan' hplan => (hr' plan' hplan).trans (hback _)⟩
    · exact ⟨(windowsAllow_spec hw).1, by simp⟩

theorem exec_appendYieldRequests (now deadline : Time) (requests : List (String × String))
    (engine : LeaseEngine) :
    (appendYieldRequests now deadline requests).exec engine = (.ok (), engine) := by
  induction requests with
  | nil => rfl
  | cons request rest ih =>
    rw [appendYieldRequests, Eff.exec_bind]
    exact ih

/-- A reconciliation re-sorts, prunes and, unless it fails, replaces the yield demands. -/
theorem reconcile_spec {now : Time} {engine engine' : LeaseEngine}
    {result : Except LeaseError Unit}
    (h : (reconcileYieldDemands now).exec engine = (result, engine')) :
    (∃ error, result = .error error ∧ PruneOf now (engine.refreshAgedOrder now) engine') ∨
      (result = .ok () ∧ ∃ mid deadline, PruneOf now (engine.refreshAgedOrder now) mid ∧
        mid.yieldDeadline now = .ok deadline ∧ engine' = mid.reconciled now deadline) := by
  rw [reconcileYieldDemands, Eff.exec_bind] at h
  simp only [Eff.exec_modify] at h
  rw [Eff.exec_bind] at h
  simp only [Eff.exec_get] at h
  rcases Eff.exec_bind_cases h with ⟨plan, mid, hplan, hrest⟩ | ⟨error, hplan, rfl⟩
  · obtain ⟨hp, hr⟩ := planInterrupts_spec hplan
    rw [Eff.exec_bind] at hrest
    simp only [Eff.exec_get] at hrest
    cases hd : mid.yieldDeadline now with
    | error error =>
      rw [hd] at hrest
      cases hrest
      exact .inl ⟨error, rfl, hp⟩
    | ok deadline =>
      rw [hd] at hrest
      rw [Eff.exec_bind_ok (exec_appendYieldRequests ..)] at hrest
      cases hrest
      refine .inr ⟨rfl, mid, deadline, hp, hd, ?_⟩
      have hactive : mid.activeInterrupts now =
          (engine.refreshAgedOrder now).interrupts.filter
            ((engine.refreshAgedOrder now).windowsFit now) := by
        rw [activeInterrupts, windowsFit_pruneOf hp]
        congr 1
        rw [hp.frame]
        rfl
      rw [hr plan rfl, reconciled, hactive, planFor_pruneOf hp]
      rfl
  · exact .inl ⟨error, rfl, (planInterrupts_spec hplan).1⟩

theorem reconcile_moves {base : Nat} {now : Time} {own : LeaseRequest → Prop} {engine engine' : LeaseEngine}
    {result : Except LeaseError Unit}
    (h : (reconcileYieldDemands now).exec engine = (result, engine')) :
    Moves base now own engine engine' := by
  rcases reconcile_spec h with ⟨_, _, hp⟩ | ⟨_, mid, deadline, hp, hd, rfl⟩
  · exact Move.resort.moves.tail (.prune hp)
  · exact (Move.resort.moves.tail (.prune hp)).tail (.reconcile hd)

/-! ## Promotion -/

/-- `selectPending` finds the first request that fits. -/
theorem selectPending_spec {now : Time} {pending : List PendingRequest} {index : Nat}
    {engine engine' : LeaseEngine} {result : Except LeaseError (Option Nat)}
    (h : (selectPending now pending index).exec engine = (result, engine')) :
    PruneOf now engine engine' ∧
      (∀ found, result = .ok (some found) → ∃ i p, found = index + i ∧ pending[i]? = some p ∧
        engine.Fits p.request now ∧ engine'.PrunedAt p.request.pools now ∧
        ∀ j < i, ∀ q, pending[j]? = some q → ¬ engine.Fits q.request now) ∧
      (result = .ok none → ∀ q ∈ pending, ¬ engine.Fits q.request now) ∧
      (∀ error, result = .error error → ∃ q ∈ pending, engine.Stuck q.request now) := by
  induction pending generalizing engine index with
  | nil => cases h; exact ⟨.rfl', by simp, by simp, by simp⟩
  | cons p rest ih =>
    rw [selectPending] at h
    rcases Eff.exec_bind_cases h with ⟨allowed, mid, hc, hrest⟩ | ⟨error, hc, rfl⟩
    · obtain ⟨hp, htrue, hfalse, -⟩ := canGrant_spec hc
      cases allowed with
      | true =>
        cases hrest
        obtain ⟨hfits, hpruned⟩ := htrue rfl
        refine ⟨hp, fun found hfound => ?_, by simp, by simp⟩
        cases hfound
        exact ⟨0, p, rfl, rfl, hfits, hpruned, fun j hj => absurd hj (Nat.not_lt_zero j)⟩
      | false =>
        obtain ⟨hp', hsome, hnone, hstuck⟩ := ih hrest
        have hno : ¬ engine.Fits p.request now := hfalse rfl
        refine ⟨hp.trans hp', fun found hfound => ?_, fun hr q hq => ?_, fun error hr => ?_⟩
        · obtain ⟨i, q, rfl, hget, hfits, hpruned, hfirst⟩ := hsome found hfound
          refine ⟨i + 1, q, by omega, hget, (fits_pruneOf hp).mp hfits, hpruned, ?_⟩
          intro j hj q' hq'
          cases j with
          | zero => cases hq'; exact hno
          | succ j => exact fun hf => hfirst j (by omega) q' hq' ((fits_pruneOf hp).mpr hf)
        · rcases List.mem_cons.mp hq with rfl | hq
          · exact hno
          · exact fun hf => hnone hr q hq ((fits_pruneOf hp).mpr hf)
        · obtain ⟨q, hq, hs⟩ := hstuck error hr
          exact ⟨q, List.mem_cons_of_mem _ hq, hs.of_pruneOf hp⟩
    · obtain ⟨hp, -, -, hstuck⟩ := canGrant_spec hc
      exact ⟨hp, by simp, by simp, fun _ _ => ⟨p, List.mem_cons_self, hstuck error rfl⟩⟩

/-- How a round of the promotion loop can end. -/
inductive PromoteRound (now : Time) (rounds : Nat) (engine : LeaseEngine) :
    Except LeaseError (List LeaseGrant) → LeaseEngine → Prop
  | failed {error : LeaseError} {engine' : LeaseEngine} (hp : PruneOf now engine engine')
    (stuck : ∃ q ∈ engine.pending, engine.Stuck q.request now) :
    PromoteRound now rounds engine (.error error) engine'
  | done {engine' : LeaseEngine} (hp : PruneOf now engine engine')
    (full : ∀ q ∈ engine'.pending, ¬ engine'.Fits q.request now) :
    PromoteRound now rounds engine (.ok []) engine'
  | unlogged {mid : LeaseEngine} {index : Nat} {p : PendingRequest} {error : LeaseError}
    (hp : PruneOf now engine mid) (select : mid.FirstFit now index p)
    (failed : ¬ mid.Logged p.ticketId p.request now) :
    PromoteRound now rounds engine (.error error) (mid.logGrant p.ticketId p.request now)
  | granted {mid : LeaseEngine} {index : Nat} {p : PendingRequest}
    {rest : Except LeaseError (List LeaseGrant)} {engine' : LeaseEngine}
    (hp : PruneOf now engine mid) (select : mid.FirstFit now index p)
    (logged : mid.Logged p.ticketId p.request now)
    (more : (promoteLoop now rounds).exec (mid.promoted index p now) = (rest, engine')) :
    PromoteRound now rounds engine
      (rest.map (mid.grantFor p.ticketId p.request now :: ·)) engine'

theorem promoteLoop_round {now : Time} {rounds : Nat} {engine engine' : LeaseEngine}
    {result : Except LeaseError (List LeaseGrant)}
    (h : (promoteLoop now (rounds + 1)).exec engine = (result, engine')) :
    PromoteRound now rounds engine result engine' := by
  rw [promoteLoop, Eff.exec_bind] at h
  simp only [Eff.exec_get] at h
  rcases Eff.exec_bind_cases h with ⟨found, mid, hsel, hrest⟩ | ⟨error, hsel, rfl⟩
  swap
  · obtain ⟨hp, -, -, hstuck⟩ := selectPending_spec hsel
    exact .failed hp (hstuck error rfl)
  obtain ⟨hp, hsome, hnone, -⟩ := selectPending_spec hsel
  have hpending : mid.pending = engine.pending := by rw [hp.frame]
  cases found with
  | none =>
    cases hrest
    refine .done hp fun q hq => ?_
    rw [fits_pruneOf hp]
    exact hnone rfl q (hpending ▸ hq)
  | some index =>
    obtain ⟨i, p, hi, hget, hfits, hpruned, hfirst⟩ := hsome index rfl
    obtain rfl : index = i := by omega
    have hselect : mid.FirstFit now index p := by
      refine ⟨hpending ▸ hget, (fits_pruneOf hp).mpr hfits, hpruned, fun j hj q hq => ?_⟩
      rw [fits_pruneOf hp]
      exact hfirst j hj q (hpending ▸ hq)
    simp only at hrest
    rw [Eff.exec_bind] at hrest
    simp only [Eff.exec_get, hselect.get] at hrest
    rw [Eff.exec_bind, exec_grant hselect.fits.open] at hrest
    cases hlog : (appendLine mid.events (mid.grantEvent p.ticketId p.request now)).1 with
    | error error =>
      simp only [hlog] at hrest
      cases hrest
      exact .unlogged hp hselect (by rw [Logged, hlog]; simp)
    | ok value =>
      simp only [hlog] at hrest
      rw [Eff.exec_bind] at hrest
      simp only [Eff.exec_modify] at hrest
      rcases Eff.exec_bind_cases hrest with ⟨rest, last, hmore, hlast⟩ | ⟨error, hmore, rfl⟩
      · cases hlast
        exact .granted hp hselect (by rw [Logged, hlog]) hmore
      · have hround := PromoteRound.granted hp hselect (by rw [Logged, hlog]) hmore
        exact hround

theorem promoteLoop_moves {base : Nat} {now : Time} {own : LeaseRequest → Prop} {rounds : Nat} {engine engine' : LeaseEngine}
    {result : Except LeaseError (List LeaseGrant)}
    (h : (promoteLoop now rounds).exec engine = (result, engine')) :
    Moves base now own engine engine' := by
  induction rounds generalizing engine result with
  | zero => cases h; exact .refl
  | succ rounds ih =>
    cases promoteLoop_round h with
    | failed hp _ => exact hp.moves
    | done hp _ => exact hp.moves
    | unlogged hp select failed => exact hp.moves.tail (.promoteFailed select failed)
    | granted hp select logged more => exact (hp.moves.tail (.promote select logged)).trans (ih more)

theorem length_promoted {engine : LeaseEngine} {now : Time} {index : Nat} {p : PendingRequest}
    (h : engine.pending[index]? = some p) :
    (engine.promoted index p now).pending.length + 1 = engine.pending.length := by
  obtain ⟨hlt, -⟩ := List.getElem?_eq_some_iff.mp h
  show (engine.pending.eraseIdx index).length + 1 = _
  rw [List.length_eraseIdx_of_lt hlt]
  omega

/-- With a round for each pending request, the loop ends by finding nothing more to grant. -/
theorem promoteLoop_done {now : Time} {rounds : Nat} {engine engine' : LeaseEngine}
    {grants : List LeaseGrant} (hrounds : engine.pending.length ≤ rounds)
    (h : (promoteLoop now rounds).exec engine = (.ok grants, engine')) :
    ∀ q ∈ engine'.pending, ¬ engine'.Fits q.request now := by
  induction rounds generalizing engine grants with
  | zero =>
    cases h
    simp [List.length_eq_zero_iff.mp (Nat.le_zero.mp hrounds)]
  | succ rounds ih =>
    generalize hr : (Except.ok grants : Except LeaseError (List LeaseGrant)) = result at h
    cases promoteLoop_round h with
    | failed => cases hr
    | unlogged => cases hr
    | done hp full => exact full
    | @granted mid index p rest _ hp select logged more =>
      cases rest with
      | error error => cases hr
      | ok rest =>
        refine ih ?_ more
        have hlength : (mid.promoted index p now).pending.length + 1 = mid.pending.length :=
          length_promoted select.get
        have hpending : mid.pending = engine.pending := by rw [hp.frame]
        rw [hpending] at hlength
        omega

theorem promote_moves {base : Nat} {now : Time} {own : LeaseRequest → Prop} {engine engine' : LeaseEngine}
    {result : Except LeaseError (List LeaseGrant)}
    (h : (promote now).exec engine = (result, engine')) : Moves base now own engine engine' := by
  rw [promote, Eff.exec_bind] at h
  simp only [Eff.exec_modify] at h
  rw [Eff.exec_bind] at h
  exact Move.resort.moves.trans (promoteLoop_moves h)

theorem promote_done {now : Time} {engine engine' : LeaseEngine} {grants : List LeaseGrant}
    (h : (promote now).exec engine = (.ok grants, engine')) :
    ∀ q ∈ engine'.pending, ¬ engine'.Fits q.request now := by
  rw [promote, Eff.exec_bind] at h
  simp only [Eff.exec_modify] at h
  rw [Eff.exec_bind] at h
  exact promoteLoop_done (Nat.le_refl _) h

/-! ## Admission -/

theorem foldl_openCampaignPool_moves {base : Nat} {now : Time} {own : LeaseRequest → Prop} (pools : List String)
    (engine : LeaseEngine) : Moves base now own engine
      { engine with pools := pools.foldl openCampaignPool engine.pools } := by
  induction pools generalizing engine with
  | nil => exact .refl
  | cons pool rest ih =>
    refine .trans ?_ (ih { engine with pools := openCampaignPool engine.pools pool })
    unfold openCampaignPool
    split
    · next hcampaign =>
      cases hs : engine.pools.get? pool with
      | some state => exact .refl
      | none => exact Move.moves (.openPool hcampaign hs)
    · exact .refl

theorem get?_openCampaignPool_of_some {pools : Dict String RuntimePool} {pool q : String}
    {state : RuntimePool} (h : pools.get? q = some state) :
    (openCampaignPool pools pool).get? q = some state := by
  unfold openCampaignPool
  split
  · cases hs : pools.get? pool with
    | some _ => exact h
    | none =>
      have hne : q ≠ pool := by rintro rfl; rw [hs] at h; cases h
      exact (pools.get?_insert_ne _ hne).trans h
  · exact h

theorem get?_foldl_openCampaignPool_of_some {rest : List String} {pools : Dict String RuntimePool}
    {q : String} {state : RuntimePool} (h : pools.get? q = some state) :
    (rest.foldl openCampaignPool pools).get? q = some state := by
  induction rest generalizing pools with
  | nil => exact h
  | cons pool rest ih => exact ih (get?_openCampaignPool_of_some h)

/-- A campaign pool that the admission opens is a mutex. -/
theorem get?_foldl_openCampaignPool {rest : List String} {pools : Dict String RuntimePool}
    {q : String} (hq : q ∈ rest) (hcampaign : isCampaignPoolName q) (h : pools.get? q = none) :
    (rest.foldl openCampaignPool pools).get? q = some (RuntimePool.new campaignMutexConfig) := by
  induction rest generalizing pools with
  | nil => cases hq
  | cons pool rest ih =>
    rw [List.foldl_cons]
    by_cases hpool : q = pool
    · subst hpool
      refine get?_foldl_openCampaignPool_of_some ?_
      simp only [openCampaignPool, hcampaign, if_true, h, Dict.get?_insert_self]
    · refine ih ((List.mem_cons.mp hq).resolve_left hpool) ?_
      unfold openCampaignPool
      split
      · cases pools.get? pool with
        | some _ => exact h
        | none => exact (pools.get?_insert_ne _ hpool).trans h
      · exact h

theorem validatePools_ok {engine : LeaseEngine} {request : LeaseRequest} {pools : List String}
    (h : engine.validatePools request pools = .ok ()) (pool : String) (hpool : pool ∈ pools) :
    (engine.pools.get? pool = none ∧ isCampaignPoolName pool) ∨
      ∃ state, engine.pools.get? pool = some state ∧
        (state.config.predicate.isWindowed → request.consumptionEstimate.isSome) := by
  induction pools with
  | nil => cases hpool
  | cons q rest ih =>
    rw [validatePools] at h
    cases hs : engine.pools.get? q with
    | none =>
      simp only [hs] at h
      split at h
      · next hcampaign =>
        rcases List.mem_cons.mp hpool with rfl | hpool
        · exact .inl ⟨hs, hcampaign⟩
        · exact ih h hpool
      · cases h
    | some state =>
      simp only [hs] at h
      split at h
      · cases h
      · next hwindow =>
        rcases List.mem_cons.mp hpool with rfl | hpool
        · refine .inr ⟨state, hs, fun hw => ?_⟩
          simp only [hw, Bool.true_and, Option.isNone_iff_eq_none] at hwindow
          exact Option.isSome_iff_ne_none.mpr hwindow
        · exact ih h hpool

theorem canonicalizeRequest_eq {engine : LeaseEngine} {original request : LeaseRequest}
    (h : engine.canonicalizeRequest original = .ok request) :
    ∃ pools, Poolset.canonicalize original.pools = .ok pools ∧ request = { original with pools } ∧
      engine.validateRequest request = .ok () := by
  unfold canonicalizeRequest at h
  cases hc : Poolset.canonicalize original.pools with
  | error error =>
    rw [hc] at h
    cases h
  | ok pools =>
    simp only [hc] at h
    cases hv : engine.validateRequest { original with pools } with
    | error error =>
      rw [hv] at h
      cases h
    | ok _ =>
      rw [hv] at h
      cases h
      exact ⟨pools, rfl, rfl, hv⟩

/-- A request that `canonicalizeRequest` accepts is admissible once its campaign pools are open. -/
theorem canonicalizeRequest_admissible {engine : LeaseEngine} {original request : LeaseRequest}
    (h : engine.canonicalizeRequest original = .ok request) :
    { engine with pools := request.pools.foldl openCampaignPool engine.pools }.Admissible
      request := by
  obtain ⟨pools, hc, rfl, hv⟩ := canonicalizeRequest_eq h
  unfold validateRequest at hv
  split at hv
  · cases hv
  next hnamed =>
  have hvalid : engine.validatePools { original with pools } pools = .ok () := hv
  rw [Bool.or_eq_true, not_or, Bool.not_eq_true, Bool.not_eq_true] at hnamed
  refine ⟨hnamed, (Poolset.canonicalize_canonical hc).1, fun pool hpool => ?_, fun pool hpool hw => ?_⟩
  · rcases validatePools_ok hvalid pool hpool with ⟨hnone, hcampaign⟩ | ⟨state, hs, _⟩
    · exact ⟨_, get?_foldl_openCampaignPool hpool hcampaign hnone⟩
    · exact ⟨_, get?_foldl_openCampaignPool_of_some hs⟩
  · rcases validatePools_ok hvalid pool hpool with ⟨hnone, hcampaign⟩ | ⟨state, hs, hest⟩
    · simp [isWindowedPool, get?_foldl_openCampaignPool hpool hcampaign hnone,
        RuntimePool.new, campaignMutexConfig, PoolPredicate.isWindowed] at hw
    · exact hest (by simpa [isWindowedPool, get?_foldl_openCampaignPool_of_some hs] using hw)

theorem Admissible.pruneOf {now : Time} {a b : LeaseEngine} {request : LeaseRequest}
    (h : a.Admissible request) (hp : PruneOf now a b) : b.Admissible request := by
  refine ⟨h.named, h.canonical, fun pool hpool => ?_, fun pool hpool hw => h.estimate pool hpool ?_⟩
  · obtain ⟨state, hs⟩ := h.pools pool hpool
    obtain ⟨state', hs', -⟩ := hp.get?_some hs
    exact ⟨state', hs'⟩
  · obtain ⟨state, hs⟩ := h.pools pool hpool
    obtain ⟨state', hs', h'⟩ := hp.get?_some hs
    rcases h' with rfl | rfl <;> simpa [isWindowedPool, hs, hs'] using hw

/-- The engine with the campaign pools of a request open. -/
def opened (engine : LeaseEngine) (request : LeaseRequest) : LeaseEngine :=
  { engine with pools := request.pools.foldl openCampaignPool engine.pools }

theorem PruneOf.of_bump {now : Time} {a b : LeaseEngine} (h : PruneOf now a.bump b) :
    ∃ mid, PruneOf now a mid ∧ b = mid.bump :=
  ⟨{ a with pools := b.pools }, ⟨rfl, h.pools⟩, h.frame⟩

/-- How `admitAt` can end. -/
inductive AdmitExit (original : LeaseRequest) (now : Time) (engine : LeaseEngine) :
    Except LeaseError AdmitOutcome → LeaseEngine → Prop
  | invalid {error : LeaseError} (h : engine.canonicalizeRequest original = .error error) :
    AdmitExit original now engine (.error error) engine
  | overflow {request : LeaseRequest} {error : LeaseError}
    (h : engine.canonicalizeRequest original = .ok request)
    (full : ¬ engine.nextSequence + 1 ≤ u64Max) :
    AdmitExit original now engine (.error error) (engine.opened request)
  | failed {request : LeaseRequest} {error : LeaseError} {mid : LeaseEngine}
    (h : engine.canonicalizeRequest original = .ok request)
    (small : engine.nextSequence + 1 ≤ u64Max) (hp : PruneOf now (engine.opened request) mid)
    (stuck : (engine.opened request).Stuck request now) :
    AdmitExit original now engine (.error error) mid.bump
  | unlogged {request : LeaseRequest} {error : LeaseError} {mid : LeaseEngine}
    (h : engine.canonicalizeRequest original = .ok request)
    (small : engine.nextSequence + 1 ≤ u64Max) (hp : PruneOf now (engine.opened request) mid)
    (ok : mid.Admissible request)
    (fits : mid.Fits request now) (pruned : mid.PrunedAt request.pools now)
    (failed : ¬ mid.Logged mid.nextTicket request now) :
    AdmitExit original now engine (.error error) (mid.logGrant mid.nextTicket request now).bump
  | granted {request : LeaseRequest} {mid : LeaseEngine}
    (h : engine.canonicalizeRequest original = .ok request)
    (small : engine.nextSequence + 1 ≤ u64Max) (hp : PruneOf now (engine.opened request) mid)
    (ok : mid.Admissible request)
    (fits : mid.Fits request now) (pruned : mid.PrunedAt request.pools now)
    (logged : mid.Logged mid.nextTicket request now) :
    AdmitExit original now engine (.ok (.granted (mid.grantFor mid.nextTicket request now)))
      (mid.granted mid.nextTicket request now).bump
  | queued {request : LeaseRequest} {mid engine' : LeaseEngine}
    (h : engine.canonicalizeRequest original = .ok request)
    (small : engine.nextSequence + 1 ≤ u64Max) (hp : PruneOf now (engine.opened request) mid)
    (ok : mid.Admissible request)
    (full : ¬ mid.Fits request now)
    (reconcile : (reconcileYieldDemands now).exec (mid.queued request now) = (.ok (), engine')) :
    AdmitExit original now engine
      (.ok (.queued mid.nextTicket (engine'.pending.findIdx (hasTicket mid.nextTicket) + 1)))
      engine'
  | unqueued {request : LeaseRequest} {error : LeaseError} {mid last : LeaseEngine}
    (h : engine.canonicalizeRequest original = .ok request)
    (small : engine.nextSequence + 1 ≤ u64Max) (hp : PruneOf now (engine.opened request) mid)
    (ok : mid.Admissible request)
    (full : ¬ mid.Fits request now)
    (reconcile : (reconcileYieldDemands now).exec (mid.queued request now) =
      (.error error, last)) :
    AdmitExit original now engine (.error error) (last.withdrawn mid.nextTicket)

theorem admitAt_exit {original : LeaseRequest} {now : Time} {engine engine' : LeaseEngine}
    {result : Except LeaseError AdmitOutcome}
    (h : (admitAt original now).exec engine = (result, engine')) :
    AdmitExit original now engine result engine' := by
  rw [admitAt, Eff.exec_bind] at h
  simp only [Eff.exec_get] at h
  cases hc : engine.canonicalizeRequest original with
  | error error =>
    rw [hc] at h
    cases h
    exact .invalid hc
  | ok request =>
    simp only [hc] at h
    rw [Eff.exec_bind] at h
    simp only [Eff.exec_modify] at h
    rw [Eff.exec_bind] at h
    simp only [Eff.exec_get] at h
    split at h
    swap
    · next hfull =>
      cases h
      exact .overflow hc hfull
    next hsmall =>
    have hok := canonicalizeRequest_admissible hc
    rw [Eff.exec_bind] at h
    simp only [Eff.exec_set] at h
    rcases Eff.exec_bind_cases h with ⟨allowed, last, hcan, hrest⟩ | ⟨error, hcan, rfl⟩
    swap
    · obtain ⟨hp', -, -, hstuck⟩ := canGrant_spec hcan
      obtain ⟨mid, hp, rfl⟩ := PruneOf.of_bump (a := engine.opened request) hp'
      exact .failed hc hsmall hp (hstuck error rfl)
    obtain ⟨hp', htrue, hfalse, -⟩ := canGrant_spec hcan
    obtain ⟨mid, hp, rfl⟩ := PruneOf.of_bump (a := engine.opened request) hp'
    have hadmissible : mid.Admissible request := hok.pruneOf hp
    have hticket : leaseTicket engine.epoch engine.nextSequence = mid.nextTicket := by
      rw [nextTicket, hp.frame]
      rfl
    simp only [hticket] at hrest
    cases allowed with
    | true =>
      obtain ⟨hfits, hpruned⟩ := htrue rfl
      have hfits' : mid.bump.Fits request now := (fits_pruneOf hp').mpr hfits
      rw [if_pos rfl, Eff.exec_bind, exec_grant hfits'.open] at hrest
      cases hlog : (appendLine mid.events (mid.grantEvent mid.nextTicket request now)).1 with
      | error error =>
        have hlog' : (appendLine mid.bump.events
          (mid.bump.grantEvent mid.nextTicket request now)).1 = .error error := hlog
        simp only [hlog'] at hrest
        cases hrest
        exact .unlogged hc hsmall hp hadmissible hfits' hpruned (by rw [Logged, hlog]; simp)
      | ok value =>
        have hlog' : (appendLine mid.bump.events
          (mid.bump.grantEvent mid.nextTicket request now)).1 = .ok value := hlog
        simp only [hlog'] at hrest
        cases hrest
        exact .granted hc hsmall hp hadmissible hfits' hpruned (by rw [Logged, hlog])
    | false =>
      have hfull : ¬ mid.Fits request now := fun hf => hfalse rfl ((fits_pruneOf hp').mp hf)
      rw [if_neg (by simp), Eff.exec_bind] at hrest
      simp only [Eff.exec_modify] at hrest
      rw [Eff.exec_bind] at hrest
      simp only [Eff.exec_modify] at hrest
      rw [Eff.exec_bind] at hrest
      simp only [Eff.exec_get] at hrest
      have hsequence : engine.nextSequence = mid.nextSequence := by rw [hp.frame]; rfl
      rcases hrec : (reconcileYieldDemands now).exec (mid.queued request now) with
        ⟨error | value, last⟩
      all_goals
        rw [queued, ← hsequence] at hrec
        simp only [bump, ← hsequence, hrec] at hrest
        rw [Eff.exec_bind] at hrest
        cases hrest
        rw [hsequence] at hrec
      · exact .unqueued hc hsmall hp hadmissible hfull hrec
      · exact .queued hc hsmall hp hadmissible hfull hrec

theorem admitAt_moves {original : LeaseRequest} {now : Time} {engine engine' : LeaseEngine}
    {result : Except LeaseError AdmitOutcome}
    (h : (admitAt original now).exec engine = (result, engine')) :
    Moves engine.nextSequence now (fun request => engine.canonicalizeRequest original = .ok request)
      engine engine' := by
  have hopen : ∀ request, Moves engine.nextSequence now
      (fun request => engine.canonicalizeRequest original = .ok request) engine
      (engine.opened request) :=
    fun request => foldl_openCampaignPool_moves request.pools engine
  have hsmall' : ∀ {request mid}, engine.nextSequence + 1 ≤ u64Max →
      PruneOf now (engine.opened request) mid → mid.nextSequence + 1 ≤ u64Max := fun hsmall hp => by
    rw [hp.nextSequence_eq]
    exact hsmall
  cases admitAt_exit h with
  | invalid => exact .refl
  | overflow => exact hopen _
  | failed _ small hp _ => exact ((hopen _).tail (.prune hp)).tail (.skip (hsmall' small hp))
  | unlogged mine small hp ok fits pruned failed =>
    exact ((hopen _).tail (.prune hp)).tail (.grantFailed mine (hsmall' small hp) ok fits pruned failed)
  | granted mine small hp ok fits pruned logged =>
    exact ((hopen _).tail (.prune hp)).tail (.grant mine (hsmall' small hp) ok fits pruned logged)
  | queued mine small hp ok full reconcile =>
    exact (((hopen _).tail (.prune hp)).tail (.queue mine (hsmall' small hp) ok full)).trans (reconcile_moves reconcile)
  | @unqueued request error mid last mine small hp ok full reconcile =>
    have hmoves : Moves engine.nextSequence now
        (fun request => engine.canonicalizeRequest original = .ok request) engine last :=
      (((hopen _).tail (.prune hp)).tail (.queue mine (hsmall' small hp) ok full)).trans (reconcile_moves reconcile)
    have hticket : mid.nextTicket = leaseTicket last.epoch engine.nextSequence := by
      have hmid : mid.epoch = engine.epoch ∧ mid.nextSequence = engine.nextSequence := by
        rw [hp.frame]; exact ⟨rfl, rfl⟩
      have hlast : last.epoch = mid.epoch := by
        rcases reconcile_spec reconcile with ⟨_, _, hp'⟩ | ⟨hok, _⟩
        · rw [hp'.frame, refreshAgedOrder]
          split <;> rfl
        · cases hok
      rw [nextTicket, hlast, hmid.2]
    rw [hticket]
    exact hmoves.tail (.withdraw (Nat.le_refl _))

/-! ## The other calls -/

theorem checkEpoch_cases {epoch : Nat} {engine engine' : LeaseEngine}
    {result : Except LeaseError Unit} (h : (checkEpoch epoch).exec engine = (result, engine')) :
    engine' = engine := by
  rw [checkEpoch, Eff.exec_bind] at h
  simp only [Eff.exec_get] at h
  split at h <;> cases h <;> rfl

theorem releaseAt_cases {leaseId : String} {epoch : Nat} {now : Time}
    {engine engine' : LeaseEngine} {result : Except LeaseError ReleaseOutcome}
    (h : (releaseAt leaseId epoch now).exec engine = (result, engine')) :
    (engine' = engine ∧ ∃ error, result = .error error) ∨
      ∃ held, engine.held.get? leaseId = some held ∧
        ((∃ error, (promote now).exec (engine.finished .released leaseId held) =
          (.error error, engine') ∧ result = .error error) ∨
        ∃ grants mid, (promote now).exec (engine.finished .released leaseId held) =
          (.ok grants, mid) ∧ ∃ last, (reconcileYieldDemands now).exec mid = (last, engine') ∧
          result = last.map fun _ => { released := held.grant, promoted := grants }) := by
  rw [releaseAt] at h
  rcases Eff.exec_bind_cases h with ⟨_, mid, hcheck, hrest⟩ | ⟨error, hcheck, rfl⟩
  swap
  · exact .inl ⟨checkEpoch_cases hcheck, error, rfl⟩
  obtain rfl := checkEpoch_cases hcheck
  rw [Eff.exec_bind] at hrest
  simp only [Eff.exec_get] at hrest
  cases hs : mid.held.get? leaseId with
  | none =>
    rw [hs] at hrest
    cases hrest
    exact .inl ⟨rfl, _, rfl⟩
  | some held =>
    simp only [hs] at hrest
    refine .inr ⟨held, rfl, ?_⟩
    rw [Eff.exec_bind, show (appendEvent now (.released leaseId)).exec mid = (.ok (), mid) from rfl]
      at hrest
    simp only at hrest
    rw [Eff.exec_bind] at hrest
    simp only [Eff.exec_modify] at hrest
    rw [Eff.exec_bind] at hrest
    simp only [Eff.exec_modify] at hrest
    rcases Eff.exec_bind_cases hrest with ⟨grants, mid', hpromote, hlast⟩ | ⟨error, hpromote, rfl⟩
    · refine .inr ⟨grants, mid', hpromote, ?_⟩
      rcases Eff.exec_bind_cases hlast with ⟨_, last, hrec, hdone⟩ | ⟨error, hrec, rfl⟩
      · cases hdone
        exact ⟨_, hrec, rfl⟩
      · exact ⟨_, hrec, rfl⟩
    · exact .inl ⟨error, hpromote, rfl⟩

theorem releaseAt_moves {base : Nat} {own : LeaseRequest → Prop} {leaseId : String} {epoch : Nat} {now : Time}
    {engine engine' : LeaseEngine} {result : Except LeaseError ReleaseOutcome}
    (h : (releaseAt leaseId epoch now).exec engine = (result, engine')) :
    Moves base now own engine engine' := by
  rcases releaseAt_cases h with ⟨rfl, _⟩ | ⟨held, hs, ⟨_, hpromote, _⟩ |
    ⟨grants, mid, hpromote, _, hrec, _⟩⟩
  · exact .refl
  · exact (Move.finish hs).moves.trans (promote_moves hpromote)
  · exact ((Move.finish hs).moves.trans (promote_moves hpromote)).trans (reconcile_moves hrec)

theorem cancelPendingAt_cases {ticketId : String} {epoch : Nat} {now : Time}
    {engine engine' : LeaseEngine} {result : Except LeaseError Unit}
    (h : (cancelPendingAt ticketId epoch now).exec engine = (result, engine')) :
    (engine' = engine ∧ ∃ error, result = .error error) ∨
      engine.pending.any (hasTicket ticketId) ∧ engine' = engine.cancelled ticketId ∧
        result = .ok () := by
  rw [cancelPendingAt] at h
  rcases Eff.exec_bind_cases h with ⟨_, mid, hcheck, hrest⟩ | ⟨error, hcheck, rfl⟩
  swap
  · exact .inl ⟨checkEpoch_cases hcheck, error, rfl⟩
  obtain rfl := checkEpoch_cases hcheck
  rw [Eff.exec_bind] at hrest
  simp only [Eff.exec_get] at hrest
  split at hrest
  · next hpending =>
    cases hrest
    exact .inr ⟨hpending, rfl, rfl⟩
  · cases hrest
    exact .inl ⟨rfl, _, rfl⟩

theorem cancelPendingAt_moves {base : Nat} {own : LeaseRequest → Prop} {ticketId : String} {epoch : Nat} {now : Time}
    {engine engine' : LeaseEngine} {result : Except LeaseError Unit}
    (h : (cancelPendingAt ticketId epoch now).exec engine = (result, engine')) :
    Moves base now own engine engine' := by
  rcases cancelPendingAt_cases h with ⟨rfl, _⟩ | ⟨hpending, rfl, _⟩
  · exact .refl
  · exact Move.moves (.cancel hpending)

theorem planTick_cases {now : Time} {engine engine' : LeaseEngine}
    {result : Except LeaseError (List LeaseGrant)}
    (h : (planTick now).exec engine = (result, engine')) :
    ∃ last, (reconcileYieldDemands now).exec engine = (last, engine') ∧
      result = last.map fun _ =>
        (engine'.held.values.filter (reclaimable now)).map (·.grant) := by
  rw [planTick] at h
  rcases Eff.exec_bind_cases h with ⟨_, mid, hrec, hrest⟩ | ⟨error, hrec, rfl⟩
  · cases hrest
    exact ⟨_, hrec, rfl⟩
  · exact ⟨_, hrec, rfl⟩

/-- One round of the preemption loop. -/
theorem preemptEach_cons {now : Time} {leaseId : String} {rest : List String}
    {engine engine' : LeaseEngine} {result : Except LeaseError (List LeaseGrant)}
    (h : (preemptEach now (leaseId :: rest)).exec engine = (result, engine')) :
    (engine' = engine ∧ ∃ error, result = .error error) ∨
      ∃ held, engine.held.get? leaseId = some held ∧ reclaimable now held ∧ ∃ more,
        (preemptEach now rest).exec (engine.finished .preempted leaseId held) = (more, engine') ∧
        result = more.map (held.grant :: ·) := by
  rw [preemptEach, Eff.exec_bind] at h
  simp only [Eff.exec_get] at h
  cases hs : engine.held.get? leaseId with
  | none =>
    rw [hs] at h
    cases h
    exact .inl ⟨rfl, _, rfl⟩
  | some held =>
    simp only [hs] at h
    split at h
    swap
    · cases h
      exact .inl ⟨rfl, _, rfl⟩
    next hreclaim =>
    refine .inr ⟨held, rfl, hreclaim, ?_⟩
    rw [Eff.exec_bind, show (appendEvent now (.preempted leaseId)).exec engine =
      (.ok (), engine) from rfl] at h
    simp only at h
    rw [Eff.exec_bind] at h
    simp only [Eff.exec_modify] at h
    rw [Eff.exec_bind] at h
    simp only [Eff.exec_modify] at h
    rcases Eff.exec_bind_cases h with ⟨more, last, hmore, hdone⟩ | ⟨error, hmore, rfl⟩
    · cases hdone
      exact ⟨_, hmore, rfl⟩
    · exact ⟨_, hmore, rfl⟩

theorem preemptEach_moves {base : Nat} {now : Time} {own : LeaseRequest → Prop} {reclaimed : List String}
    {engine engine' : LeaseEngine} {result : Except LeaseError (List LeaseGrant)}
    (h : (preemptEach now reclaimed).exec engine = (result, engine')) :
    Moves base now own engine engine' := by
  induction reclaimed generalizing engine result with
  | nil => cases h; exact .refl
  | cons leaseId rest ih =>
    rcases preemptEach_cons h with ⟨rfl, _⟩ | ⟨held, hs, _, more, hmore, _⟩
    · exact .refl
    · exact (Move.finish hs).moves.trans (ih hmore)

/-- `commitPreemptions` reconciles, preempts, promotes and reconciles again. -/
theorem commitPreemptions_cases {reclaimed : List String} {now : Time}
    {engine engine' : LeaseEngine} {result : Except LeaseError TickOutcome}
    (h : (commitPreemptions reclaimed now).exec engine = (result, engine')) :
    (∃ error, (reconcileYieldDemands now).exec engine = (.error error, engine') ∧
      result = .error error) ∨
    ∃ a, (reconcileYieldDemands now).exec engine = (.ok (), a) ∧
      ((∃ error, (preemptEach now reclaimed).exec a = (.error error, engine') ∧
        result = .error error) ∨
      ∃ preempted b, (preemptEach now reclaimed).exec a = (.ok preempted, b) ∧
        ((∃ error, (promote now).exec b = (.error error, engine') ∧ result = .error error) ∨
        ∃ grants c, (promote now).exec b = (.ok grants, c) ∧
          ∃ last, (reconcileYieldDemands now).exec c = (last, engine') ∧
            result = last.map fun _ => { preempted, promoted := grants })) := by
  rw [commitPreemptions] at h
  rcases Eff.exec_bind_cases h with ⟨_, a, hrec, h⟩ | ⟨error, hrec, rfl⟩
  swap
  · exact .inl ⟨error, hrec, rfl⟩
  refine .inr ⟨a, hrec, ?_⟩
  rcases Eff.exec_bind_cases h with ⟨preempted, b, hpre, h⟩ | ⟨error, hpre, rfl⟩
  swap
  · exact .inl ⟨error, hpre, rfl⟩
  refine .inr ⟨preempted, b, hpre, ?_⟩
  rcases Eff.exec_bind_cases h with ⟨grants, c, hpro, h⟩ | ⟨error, hpro, rfl⟩
  swap
  · exact .inl ⟨error, hpro, rfl⟩
  refine .inr ⟨grants, c, hpro, ?_⟩
  rcases Eff.exec_bind_cases h with ⟨_, d, hlast, h⟩ | ⟨error, hlast, rfl⟩
  · cases h
    exact ⟨_, hlast, rfl⟩
  · exact ⟨_, hlast, rfl⟩

theorem commitPreemptions_moves {base : Nat} {own : LeaseRequest → Prop} {reclaimed : List String} {now : Time}
    {engine engine' : LeaseEngine} {result : Except LeaseError TickOutcome}
    (h : (commitPreemptions reclaimed now).exec engine = (result, engine')) :
    Moves base now own engine engine' := by
  rcases commitPreemptions_cases h with ⟨_, hrec, _⟩ | ⟨a, hrec, ⟨_, hpre, _⟩ |
    ⟨_, b, hpre, ⟨_, hpro, _⟩ | ⟨_, c, hpro, _, hlast, _⟩⟩⟩
  · exact reconcile_moves hrec
  · exact (reconcile_moves hrec).trans (preemptEach_moves hpre)
  · exact ((reconcile_moves hrec).trans (preemptEach_moves hpre)).trans (promote_moves hpro)
  · exact (((reconcile_moves hrec).trans (preemptEach_moves hpre)).trans
      (promote_moves hpro)).trans (reconcile_moves hlast)

theorem tick_cases {now : Time} {engine engine' : LeaseEngine}
    {result : Except LeaseError TickOutcome} (h : (tick now).exec engine = (result, engine')) :
    (∃ error, (planTick now).exec engine = (.error error, engine') ∧ result = .error error) ∨
      ∃ planned mid, (planTick now).exec engine = (.ok planned, mid) ∧
        (commitPreemptions (planned.map (·.leaseId)) now).exec mid = (result, engine') := by
  rw [tick] at h
  rcases Eff.exec_bind_cases h with ⟨planned, mid, hplan, hrest⟩ | ⟨error, hplan, rfl⟩
  · exact .inr ⟨planned, mid, hplan, hrest⟩
  · exact .inl ⟨error, hplan, rfl⟩

theorem budgetUsedAt_pruneOf {pool : String} {now : Time} {engine engine' : LeaseEngine}
    {result : Except LeaseError Nat}
    (h : (budgetUsedAt pool now).exec engine = (result, engine')) : PruneOf now engine engine' := by
  rw [budgetUsedAt, Eff.exec_bind] at h
  simp only [Eff.exec_get] at h
  cases hs : engine.pools.get? pool with
  | none =>
    simp only [hs] at h
    split at h <;> cases h <;> exact .rfl'
  | some state =>
    simp only [hs] at h
    refine exec_withPool_pruneOf (fun state => ?_) h
    rw [RuntimePool.prune]
    rcases pruneDebits state now with ⟨error | _, pruned⟩ <;> rfl

theorem windowResetAt_pruneOf {pool : String} {now : Time} {engine engine' : LeaseEngine}
    {result : Except LeaseError (Option Time)}
    (h : (windowResetAt pool now).exec engine = (result, engine')) :
    PruneOf now engine engine' := by
  rw [windowResetAt, Eff.exec_bind] at h
  simp only [Eff.exec_get] at h
  cases hs : engine.pools.get? pool with
  | none =>
    simp only [hs] at h
    split at h <;> cases h <;> exact .rfl'
  | some state =>
    simp only [hs] at h
    refine exec_withPool_pruneOf (fun state => ?_) h
    rw [RuntimePool.prune]
    rcases pruneDebits state now with ⟨error | _, pruned⟩
    · rfl
    · dsimp only
      split <;> rfl

theorem status_frame {leaseId : String} {epoch : Nat} {engine engine' : LeaseEngine}
    {result : Except LeaseError LeaseStatus}
    (h : (status leaseId epoch).exec engine = (result, engine')) : engine' = engine := by
  rw [status] at h
  rcases Eff.exec_bind_cases h with ⟨_, mid, hcheck, hrest⟩ | ⟨error, hcheck, rfl⟩
  swap
  · exact checkEpoch_cases hcheck
  obtain rfl := checkEpoch_cases hcheck
  rw [Eff.exec_bind] at hrest
  simp only [Eff.exec_get] at hrest
  cases hs : mid.held.get? leaseId with
  | some held => rw [hs] at hrest; cases hrest; rfl
  | none =>
    simp only [hs] at hrest
    split at hrest <;> cases hrest <;> rfl

end LeaseEngine

open LeaseEngine

/-- A mapped computation ends as the computation does. -/
theorem exec_map {α β : Type} {f : α → β} {x : EngineM α} {engine engine' : LeaseEngine}
    {result : Except LeaseError β} (h : (f <$> x).exec engine = (result, engine')) :
    ∃ result', x.exec engine = (result', engine') ∧ result = result'.map f := by
  rw [← bind_pure_comp] at h
  rcases Eff.exec_bind_cases h with ⟨a, mid, hx, hrest⟩ | ⟨error, hx, rfl⟩
  · cases hrest
    exact ⟨_, hx, rfl⟩
  · exact ⟨_, hx, rfl⟩

/-- The canonical form of the request that a call asks to admit. -/
def Op.Admits (engine : LeaseEngine) (op : Op) (request : LeaseRequest) : Prop :=
  match op with
  | .admitAt original _ => engine.canonicalizeRequest original = .ok request
  | _ => False

/-- Every call is a sequence of moves, on every exit. -/
theorem Op.exec_moves (op : Op) (engine : LeaseEngine) :
    Moves engine.nextSequence op.time (op.Admits engine) engine (op.exec engine).2 := by
  rcases h : op.exec engine with ⟨result, engine'⟩
  unfold Op.exec at h
  cases op with
  | admitAt request now =>
    obtain ⟨_, h, -⟩ := exec_map h
    exact admitAt_moves h
  | releaseAt leaseId epoch now =>
    obtain ⟨_, h, -⟩ := exec_map h
    exact releaseAt_moves h
  | cancelPendingAt ticketId epoch now =>
    obtain ⟨_, h, -⟩ := exec_map h
    exact cancelPendingAt_moves h
  | planTick now =>
    obtain ⟨_, h, -⟩ := exec_map h
    obtain ⟨_, hrec, -⟩ := planTick_cases h
    exact reconcile_moves hrec
  | commitPreemptions reclaimed now =>
    obtain ⟨_, h, -⟩ := exec_map h
    exact commitPreemptions_moves h
  | tick now =>
    obtain ⟨_, h, -⟩ := exec_map h
    rcases tick_cases h with ⟨_, hplan, -⟩ | ⟨planned, mid, hplan, hcommit⟩
    · obtain ⟨_, hrec, -⟩ := planTick_cases hplan
      exact reconcile_moves hrec
    · obtain ⟨_, hrec, -⟩ := planTick_cases hplan
      exact (reconcile_moves hrec).trans (commitPreemptions_moves hcommit)
  | budgetUsedAt pool now =>
    obtain ⟨_, h, -⟩ := exec_map h
    exact (budgetUsedAt_pruneOf h).moves
  | windowResetAt pool now =>
    obtain ⟨_, h, -⟩ := exec_map h
    exact (windowResetAt_pruneOf h).moves
  | status leaseId epoch now =>
    obtain ⟨_, h, -⟩ := exec_map h
    rw [status_frame h]

/-- Every step of a run, with the engine that it starts from, has a property. -/
def LeaseEngine.Along (P : LeaseEngine → Op → Prop) : LeaseEngine → List Op → Prop
  | _, [] => True
  | engine, op :: ops => P engine op ∧ Along P (op.exec engine).2 ops

instance instDecidableAlong (P : LeaseEngine → Op → Prop) [∀ engine op, Decidable (P engine op)] :
    ∀ engine ops, Decidable (LeaseEngine.Along P engine ops)
  | _, [] => .isTrue trivial
  | engine, op :: ops =>
    have := instDecidableAlong P (op.exec engine).2 ops
    inferInstanceAs (Decidable (_ ∧ _))

theorem LeaseEngine.run_cons (engine : LeaseEngine) (op : Op) (ops : List Op) :
    engine.run (op :: ops) = (op.exec engine).2.run ops := rfl

theorem LeaseEngine.run_append (engine : LeaseEngine) (before after : List Op) :
    engine.run (before ++ after) = (engine.run before).run after :=
  List.foldl_append

theorem LeaseEngine.along_append {P : LeaseEngine → Op → Prop} {engine : LeaseEngine}
    {before after : List Op} :
    Along P engine (before ++ after) ↔ Along P engine before ∧ Along P (engine.run before) after := by
  induction before generalizing engine with
  | nil => simp [Along, run]
  | cons op ops ih =>
    rw [List.cons_append, Along, Along, ih, run_cons, and_assoc]

theorem Moves.invariant {base : Nat} {now : Time} {own : LeaseRequest → Prop} {P : LeaseEngine → Prop}
    (step : ∀ {a b}, Move base now own a b → P a → P b) {a b : LeaseEngine} (hmoves : Moves base now own a b)
    (h : P a) : P b := by
  induction hmoves with
  | refl => exact h
  | tail _ hmove ih => exact step hmove ih

/-- What every move preserves, every run preserves. -/
theorem LeaseEngine.run_invariant {P : LeaseEngine → Prop}
    (step : ∀ {base now own a b}, Move base now own a b → P a → P b) {engine : LeaseEngine}
    (h : P engine) (ops : List Op) : P (engine.run ops) := by
  induction ops generalizing engine with
  | nil => exact h
  | cons op ops ih =>
    exact ih ((op.exec_moves engine).invariant step h)

end Tally.Lease
