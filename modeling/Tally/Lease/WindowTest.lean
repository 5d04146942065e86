import Tally.Lease.Conservation

/-!
# The window test of a reconciliation

Which windowed pools a reconciliation looks at, what it finds there (`look`), and that it prunes these
and no others. What it finds does not depend on what was pruned before, so a second reconciliation at the
same instant looks at the same pools and finds them as they were left.
-/

namespace Tally.Lease

namespace LeaseEngine

variable {now : Time} {a b c : LeaseEngine}

/-- The answer of the window test, and the pools that it looks at. -/
def look (engine : LeaseEngine) (now : Time) (request : LeaseRequest) :
    List String → Except LeaseError Bool × List String
  | [] => (.ok true, [])
  | pool :: rest =>
    match engine.pools.get? pool with
    | none => look engine now request rest
    | some state =>
      if state.config.predicate.isWindowed then
        match (poolAllows pool state request now).1 with
        | .ok true => ((look engine now request rest).1, pool :: (look engine now request rest).2)
        | .ok false => (.ok false, [pool])
        | .error error => (.error error, [pool])
      else look engine now request rest

theorem look_pruneOf (h : PruneOf now a b) (request : LeaseRequest) (pools : List String) :
    b.look now request pools = a.look now request pools := by
  induction pools with
  | nil => rfl
  | cons pool rest ih =>
    rw [look, look, ih]
    cases hs : a.pools.get? pool with
    | none => rw [h.get?_none hs]
    | some state =>
      obtain ⟨state', hs', rfl | rfl⟩ := h.get?_some hs
      · rw [hs']
      · rw [hs']
        dsimp only
        rw [poolAllows_prune, RuntimePool.prune_config]

/-- The test looks at pools only. -/
theorem look_congr (h : b.pools = a.pools) (request : LeaseRequest) (pools : List String) :
    b.look now request pools = a.look now request pools := by
  induction pools with
  | nil => rfl
  | cons pool rest ih => rw [look, look, ih, h]

/-- Exactly these pools have been pruned. -/
structure Pruned (now : Time) (pools : List String) (a b : LeaseEngine) : Prop where
  frame : b = { a with pools := b.pools }
  get? : ∀ q, b.pools.get? q =
    if q ∈ pools then (a.pools.get? q).map (·.prune now) else a.pools.get? q

namespace Pruned

theorem refl : Pruned now [] a a := ⟨rfl, fun _ => rfl⟩

theorem trans {xs ys : List String} (h : Pruned now xs a b) (h' : Pruned now ys b c) :
    Pruned now (xs ++ ys) a c := by
  refine ⟨by rw [h'.frame, h.frame], fun q => ?_⟩
  rw [h'.get? q, h.get? q]
  by_cases hx : q ∈ xs <;> by_cases hy : q ∈ ys
  · rw [if_pos hx, if_pos hy, if_pos (List.mem_append_left _ hx), Option.map_map]
    congr 1
    funext state
    exact state.prune_prune now
  · rw [if_pos hx, if_neg hy, if_pos (List.mem_append_left _ hx)]
  · rw [if_neg hx, if_pos hy, if_pos (List.mem_append_right _ hy)]
  · rw [if_neg hx, if_neg hy, if_neg fun h => (List.mem_append.mp h).elim hx hy]

theorem pruneOf {xs : List String} (h : Pruned now xs a b) : PruneOf now a b := by
  refine ⟨h.frame, fun q => ?_⟩
  rw [h.get? q]
  split
  · exact .inr rfl
  · exact .inl rfl

/-- Pruning a pruned pool again does not change it. -/
theorem map_prune {xs : List String} (h : Pruned now xs a b) {q : String} (hq : q ∈ xs) :
    (b.pools.get? q).map (·.prune now) = b.pools.get? q := by
  rw [h.get? q, if_pos hq, Option.map_map]
  congr 1
  funext state
  exact state.prune_prune now

end Pruned

/-- A look at one pool. -/
theorem pruned_withPool {pool : String} {state : RuntimePool} {request : LeaseRequest}
    {result : Except LeaseError Bool} (hs : a.pools.get? pool = some state)
    (h : (withPool pool (poolAllows pool · request now)).exec a = (result, b)) :
    result = (poolAllows pool state request now).1 ∧ Pruned now [pool] a b := by
  rw [exec_withPool, hs] at h
  dsimp only at h
  rw [poolAllows_snd] at h
  cases h
  refine ⟨rfl, rfl, fun q => ?_⟩
  dsimp only
  rw [Dict.get?_insert]
  by_cases hq : q = pool
  · rw [hq, if_pos rfl, if_pos (List.mem_singleton_self _), hs]
    rfl
  · rw [if_neg hq, if_neg fun h => hq (List.mem_singleton.mp h)]

/-- `windowsAllow` returns the answer of the test and prunes the pools that it looks at. -/
theorem windowsAllow_look {p : PendingRequest} {pools : List String} {result : Except LeaseError Bool}
    (h : (windowsAllow p now pools).exec a = (result, b)) :
    result = (a.look now p.request pools).1 ∧ Pruned now (a.look now p.request pools).2 a b := by
  induction pools generalizing a with
  | nil =>
    cases h
    exact ⟨rfl, .refl⟩
  | cons pool rest ih =>
    rw [windowsAllow, Eff.exec_bind, Eff.exec_get] at h
    rw [look]
    cases hs : a.pools.get? pool with
    | none =>
      simp only [hs] at h
      exact ih h
    | some state =>
      simp only [hs] at h
      dsimp only
      split at h
      swap
      · next hnot =>
        rw [if_neg hnot]
        exact ih h
      next hwindowed =>
      rw [if_pos hwindowed]
      rcases Eff.exec_bind_cases h with ⟨allowed, mid, hx, hrest⟩ | ⟨error, hx, rfl⟩
      · obtain ⟨hanswer, hpruned⟩ := pruned_withPool hs hx
        rw [← hanswer]
        cases allowed with
        | true =>
          obtain ⟨hresult, hprunes⟩ := ih hrest
          rw [look_pruneOf hpruned.pruneOf] at hresult hprunes
          exact ⟨hresult, hpruned.trans hprunes⟩
        | false =>
          cases hrest
          exact ⟨rfl, hpruned⟩
      · obtain ⟨hanswer, hpruned⟩ := pruned_withPool hs hx
        rw [← hanswer]
        exact ⟨rfl, hpruned⟩

/-- The pools that the interrupts have looked at. -/
def looked (engine : LeaseEngine) (now : Time) (pending : List PendingRequest) : List String :=
  pending.flatMap fun p => (engine.look now p.request p.request.pools).2

/-- The windows of every request can be summed up. -/
def Readable (engine : LeaseEngine) (now : Time) (pending : List PendingRequest) : Prop :=
  ∀ p ∈ pending, ∃ allowed, (engine.look now p.request p.request.pools).1 = .ok allowed

theorem looked_pruneOf (h : PruneOf now a b) (pending : List PendingRequest) :
    b.looked now pending = a.looked now pending := by
  simp only [looked, look_pruneOf h]

theorem readable_pruneOf (h : PruneOf now a b) (pending : List PendingRequest) :
    b.Readable now pending ↔ a.Readable now pending := by
  simp only [Readable, look_pruneOf h]

/-- What is left to plan after the test of one interrupt. -/
theorem planInterrupts_cons {p : PendingRequest} {rest : List PendingRequest} {plan : YieldPlan}
    {result : Except LeaseError YieldPlan}
    (h : (planInterrupts now (p :: rest) plan).exec a = (result, b)) :
    (∃ error, (windowsAllow p now p.request.pools).exec a = (.error error, b) ∧ result = .error error) ∨
      ∃ allowed mid next, (windowsAllow p now p.request.pools).exec a = (.ok allowed, mid) ∧
        (planInterrupts now rest next).exec mid = (result, b) := by
  rw [planInterrupts] at h
  rcases Eff.exec_bind_cases h with ⟨allowed, mid, hw, hrest⟩ | ⟨error, hw, rfl⟩
  swap
  · exact .inl ⟨error, hw, rfl⟩
  right
  cases allowed with
  | false => exact ⟨false, mid, plan, hw, hrest⟩
  | true =>
    rw [if_pos rfl, Eff.exec_bind, Eff.exec_get] at hrest
    dsimp only at hrest
    cases hassigned : mid.assignments plan p.ticketId p.request.pools with
    | none =>
      rw [hassigned] at hrest
      exact ⟨true, mid, plan, hw, hrest⟩
    | some assigned =>
      rw [hassigned] at hrest
      exact ⟨true, mid, _, hw, hrest⟩

/-- Planning succeeds if and only if the windows can be summed up, and then prunes what it looks at. -/
theorem planInterrupts_look {pending : List PendingRequest} {plan : YieldPlan}
    {result : Except LeaseError YieldPlan}
    (h : (planInterrupts now pending plan).exec a = (result, b)) :
    ((∃ plan', result = .ok plan') ↔ a.Readable now pending) ∧
      ((∃ plan', result = .ok plan') → Pruned now (a.looked now pending) a b) := by
  induction pending generalizing a plan with
  | nil =>
    cases h
    exact ⟨iff_of_true ⟨_, rfl⟩ nofun, fun _ => .refl⟩
  | cons p rest ih =>
    rw [Readable, List.forall_mem_cons, looked, List.flatMap_cons]
    rcases planInterrupts_cons h with ⟨error, hw, rfl⟩ | ⟨allowed, mid, next, hw, hrest⟩
    · obtain ⟨hanswer, -⟩ := windowsAllow_look hw
      refine ⟨iff_of_false (fun ⟨_, heq⟩ => (nomatch heq)) fun h => ?_,
        fun ⟨_, heq⟩ => (nomatch heq)⟩
      obtain ⟨⟨allowed, hok⟩, -⟩ := h
      rw [← hanswer] at hok
      cases hok
    · obtain ⟨hanswer, hpruned⟩ := windowsAllow_look hw
      obtain ⟨hiff, hrestPruned⟩ := ih hrest
      rw [readable_pruneOf hpruned.pruneOf] at hiff
      rw [looked_pruneOf hpruned.pruneOf] at hrestPruned
      exact ⟨hiff.trans (and_iff_right ⟨allowed, hanswer.symm⟩).symm,
        fun hok => hpruned.trans (hrestPruned hok)⟩

/-- A reconciliation succeeds if and only if the windows of the interrupts can be summed up and there is
a deadline. It prunes the pools that it looks at. -/
theorem reconcile_look {result : Except LeaseError Unit}
    (h : (reconcileYieldDemands now).exec a = (result, b)) :
    (result = .ok () ↔ (a.refreshAgedOrder now).Readable now (a.refreshAgedOrder now).interrupts ∧
      ∃ deadline, a.yieldDeadline now = .ok deadline) ∧
    (result = .ok () → ∃ mid deadline, a.yieldDeadline now = .ok deadline ∧
      Pruned now ((a.refreshAgedOrder now).looked now (a.refreshAgedOrder now).interrupts)
        (a.refreshAgedOrder now) mid ∧
      b = mid.reconciled now deadline) := by
  have hgrace : (a.refreshAgedOrder now).yieldDeadline now = a.yieldDeadline now := by
    rw [refreshAgedOrder_frame]
    rfl
  rw [reconcileYieldDemands, Eff.exec_bind] at h
  simp only [Eff.exec_modify] at h
  rw [Eff.exec_bind] at h
  simp only [Eff.exec_get] at h
  rcases Eff.exec_bind_cases h with ⟨plan, mid, hplan, hrest⟩ | ⟨error, hplan, rfl⟩
  · obtain ⟨hiff, hpruned⟩ := planInterrupts_look hplan
    have hpruned := hpruned ⟨plan, rfl⟩
    have hread := hiff.mp ⟨plan, rfl⟩
    have hmid : mid.yieldDeadline now = a.yieldDeadline now := by
      rw [← hgrace, hpruned.frame]
      rfl
    rw [Eff.exec_bind] at hrest
    simp only [Eff.exec_get] at hrest
    cases hd : a.yieldDeadline now with
    | error error =>
      rw [hmid, hd] at hrest
      cases hrest
      refine ⟨iff_of_false (fun h => by cases h) ?_, fun h => by cases h⟩
      rintro ⟨-, deadline, heq⟩
      cases heq
    | ok deadline =>
      rw [hmid, hd] at hrest
      rw [Eff.exec_bind_ok (exec_appendYieldRequests ..)] at hrest
      cases hrest
      refine ⟨iff_of_true rfl ⟨hread, deadline, rfl⟩, fun _ => ⟨mid, deadline, rfl, hpruned, ?_⟩⟩
      have hactive : mid.activeInterrupts now = (a.refreshAgedOrder now).interrupts.filter
          ((a.refreshAgedOrder now).windowsFit now) := by
        rw [activeInterrupts, windowsFit_pruneOf hpruned.pruneOf]
        congr 1
        rw [hpruned.frame]
        rfl
      rw [(planInterrupts_spec hplan).2 plan rfl, reconciled, hactive, planFor_pruneOf hpruned.pruneOf]
      rfl
  · have hiff := (planInterrupts_look hplan).1
    refine ⟨iff_of_false (fun h => by cases h) fun h => ?_, fun h => by cases h⟩
    obtain ⟨plan, heq⟩ := hiff.mpr h.1
    cases heq

end LeaseEngine

end Tally.Lease
