import Tally.Lease.YieldCommit

/-!
# The window test of planning and of granting

A reconciliation asks the windowed pools of an interrupt for its whole estimate, and `can_grant` for
nothing if its admission was charged before. The answers differ for a charged interrupt whose windows
have room for nothing more, or for less than the estimate (`window_tests_agree_iff`): such an interrupt
waits for holders that nobody asks to yield.
-/

namespace Tally.Lease

namespace LeaseEngine

/-! ## The two tests -/

/-- `windows_allow` of a reconciliation. -/
def PlansFor (engine : LeaseEngine) (now : Time) (p : PendingRequest) : Prop :=
  ((windowsAllow p now p.request.pools).exec engine).1 = .ok true

/-- Every windowed pool of the request would pass in `can_grant`. -/
def GrantsWindows (engine : LeaseEngine) (now : Time) (request : LeaseRequest) : Prop :=
  ∀ pool ∈ request.pools, ∀ state, engine.pools.get? pool = some state →
    state.config.predicate.isWindowed = true →
      (poolAllows pool state (engine.effectiveRequest request) now).1 = .ok true

/-- The window of a pool, if it has one, has room for an amount: it can be told when the oldest debit in
it leaves, and what is in it stays within its cap. -/
def HasRoom (engine : LeaseEngine) (now : Time) (pool : String) (amount : Nat) : Prop :=
  ∀ state window, engine.pools.get? pool = some state →
    state.config.predicate = .windowedConsumption window →
      (∀ debit ∈ (state.debits.dropWhile (expired (window.windowSec * nanosPerSec) now)).head?,
        Dated (window.windowSec * nanosPerSec) debit) ∧
      window.windowSec ≤ maxDurationSec ∧
        usageOf (state.debits.dropWhile (expired (window.windowSec * nanosPerSec) now)) + amount ≤
          min u64Max window.consumptionCap

/-- A request that was charged before, and whose windows are not overdrawn, has room for its estimate
once more. -/
def RoomAgain (engine : LeaseEngine) (now : Time) (request : LeaseRequest) : Prop :=
  engine.alreadyDebited request.admissionKey = true →
    (∀ pool ∈ request.pools, engine.HasRoom now pool 0) →
      ∀ pool ∈ request.pools, engine.HasRoom now pool (request.consumptionEstimate.getD 0)

section

variable {a : LeaseEngine} {now : Time} {p : PendingRequest}

theorem HasRoom.mono {pool : String} {amount less : Nat} (h : a.HasRoom now pool amount)
    (hle : less ≤ amount) : a.HasRoom now pool less := by
  intro state window hstate hwindow
  obtain ⟨hdated, hsec, hbudget⟩ := h state window hstate hwindow
  exact ⟨hdated, hsec, le_trans (Nat.add_le_add_left hle _) hbudget⟩

theorem windowed_iff_hasRoom {pool : String} {request : LeaseRequest} :
    (∀ state, a.pools.get? pool = some state → state.config.predicate.isWindowed = true →
        (poolAllows pool state request now).1 = .ok true) ↔
      a.HasRoom now pool (request.consumptionEstimate.getD 0) := by
  constructor
  · intro h state window hstate hwindow
    have hallows := h state hstate (by rw [hwindow]; rfl)
    rw [poolAllows_windowed_iff hwindow, RuntimePool.takes_windowed hwindow] at hallows
    exact hallows
  · intro h state hstate hwindowed
    cases hpredicate : state.config.predicate with
    | coResidency =>
      rw [hpredicate] at hwindowed
      cases hwindowed
    | windowedConsumption window =>
      rw [poolAllows_windowed_iff hpredicate, RuntimePool.takes_windowed hpredicate]
      exact h state window hstate hpredicate

theorem windowFits_iff {request : LeaseRequest} {pool : String} :
    a.windowFits now request pool = true ↔
      a.HasRoom now pool (request.consumptionEstimate.getD 0) := by
  rw [← windowed_iff_hasRoom, windowFits, Option.all_eq_true]
  simp only [Bool.or_eq_true, Bool.not_eq_true', decide_eq_true_eq]
  constructor
  · intro h state hstate hwindowed
    exact (h state hstate).resolve_left (by rw [hwindowed]; exact Bool.noConfusion)
  · intro h state hstate
    cases hwindowed : state.config.predicate.isWindowed with
    | false => exact .inl rfl
    | true => exact .inr (h state hstate hwindowed)

theorem look_ok_iff {request : LeaseRequest} {pools : List String} :
    (a.look now request pools).1 = .ok true ↔ ∀ pool ∈ pools, a.windowFits now request pool = true := by
  induction pools with
  | nil => exact iff_of_true rfl nofun
  | cons pool rest ih =>
    rw [List.forall_mem_cons, ← ih, look, windowFits]
    cases a.pools.get? pool with
    | none => exact (and_iff_right rfl).symm
    | some state =>
      dsimp only
      rw [Option.all_some]
      cases state.config.predicate.isWindowed with
      | false => exact (and_iff_right rfl).symm
      | true =>
        cases (poolAllows pool state request now).1 with
        | error error => simp
        | ok allowed => cases allowed <;> simp

theorem plansFor_iff : a.PlansFor now p ↔
    ∀ pool ∈ p.request.pools, a.HasRoom now pool (p.request.consumptionEstimate.getD 0) := by
  obtain ⟨hanswer, -⟩ := windowsAllow_look (Prod.ext rfl rfl :
    (windowsAllow p now p.request.pools).exec a = ((windowsAllow p now p.request.pools).exec a |>.1, _))
  rw [PlansFor, hanswer, look_ok_iff]
  exact forall₂_congr fun pool _ => windowFits_iff

theorem grantsWindows_iff {request : LeaseRequest} : a.GrantsWindows now request ↔
    ∀ pool ∈ request.pools,
      a.HasRoom now pool ((a.effectiveRequest request).consumptionEstimate.getD 0) :=
  forall₂_congr fun _ _ => windowed_iff_hasRoom

/-- The tests agree unless a charged request has room for nothing but not for its estimate. -/
theorem tests_agree_iff :
    (a.PlansFor now p ↔ a.GrantsWindows now p.request) ↔ a.RoomAgain now p.request := by
  rw [plansFor_iff, grantsWindows_iff, RoomAgain, effectiveRequest]
  by_cases hcharged : a.alreadyDebited p.request.admissionKey = true
  · rw [if_pos hcharged]
    constructor
    · exact fun h _ hroom => h.mpr hroom
    · intro h
      exact ⟨fun hroom pool hpool => (hroom pool hpool).mono (Nat.zero_le _), h hcharged⟩
  · rw [if_neg hcharged]
    exact iff_of_true Iff.rfl fun h => absurd h hcharged

end

/-! ## Victims for an interrupt -/

section

variable (engine : LeaseEngine)

/-- The interrupts that stand before one. -/
def inFront (now : Time) (p : PendingRequest) : List PendingRequest :=
  (engine.refreshAgedOrder now).interrupts.takeWhile fun q => decide (q.ticketId ≠ p.ticketId)

/-- The holders that they claim: those whose windows fit and whose full pools all have a victim for
them. -/
def claimedAhead (now : Time) (p : PendingRequest) : List Claim :=
  (engine.refreshAgedOrder now).claimed
    ((engine.inFront now p).filter ((engine.refreshAgedOrder now).windowsFit now)) emptyPlan

/-- The holders of a pool that an interrupt may ask to yield. -/
def lowerHolders (pool : String) : List HeldLease :=
  match engine.pools.get? pool with
  | none => []
  | some state => engine.eligible state ∅

/-- An interrupt waits for holders of lower priority only: its windows would pass, and in each of its full
pools there are more of them than the interrupts ahead claim. -/
structure OnlyLower (now : Time) (p : PendingRequest) : Prop where
  windows : engine.GrantsWindows now p.request
  holders : ∀ pool ∈ p.request.pools, engine.isFull pool = true →
    ((engine.claimedAhead now p).filter fun claim => decide (claim.pool = pool)).length <
      (engine.lowerHolders pool).length

end

section

variable {a b : LeaseEngine} {now : Time}

theorem isFull_pruneOf (h : PruneOf now a b) : b.isFull = a.isFull := by
  funext pool
  rw [isFull, isFull]
  cases hs : a.pools.get? pool with
  | none => rw [h.get?_none hs]
  | some state =>
    obtain ⟨state', hs', rfl | rfl⟩ := h.get?_some hs
    · rw [hs']
    · rw [hs', Option.any_some, Option.any_some, RuntimePool.prune_config, RuntimePool.prune_holders]

theorem lowerHolders_pruneOf (h : PruneOf now a b) (pool : String) :
    b.lowerHolders pool = a.lowerHolders pool := by
  rw [lowerHolders, lowerHolders]
  cases hs : a.pools.get? pool with
  | none => rw [h.get?_none hs]
  | some state =>
    obtain ⟨state', hs', rfl | rfl⟩ := h.get?_some hs
    · rw [hs']
      dsimp only
      rw [eligible, eligible, h.held_eq]
    · rw [hs']
      dsimp only
      rw [eligible, eligible, h.held_eq, RuntimePool.prune_holders]

theorem nodup_eligible (hfiled : a.Filed) (state : RuntimePool) (reserved : Finset String) :
    ((a.eligible state reserved).map (·.grant.leaseId)).Nodup := by
  have hkeys : (a.held.values.map (·.grant.leaseId)).Nodup := hfiled.map_values ▸ a.held.nodup_keys
  have hsublist : (a.eligible state reserved).Sublist a.held.values :=
    List.filter_sublist.trans (List.filter_sublist.map _)
  exact (hsublist.map _).nodup hkeys

theorem claimed_append (front rest : List PendingRequest) (plan : YieldPlan) :
    a.claimed (front ++ rest) plan = a.claimed front plan ++ a.claimed rest (a.planFor front plan) := by
  induction front generalizing plan with
  | nil => rfl
  | cons p front ih =>
    rw [List.cons_append, claimed, claimed, planFor]
    cases a.assignments plan p.ticketId p.request.pools with
    | none => exact ih plan
    | some assigned =>
      dsimp only
      rw [ih, List.append_assoc]

theorem claimed_pruneOf (h : PruneOf now a b) (pending : List PendingRequest) (plan : YieldPlan) :
    b.claimed pending plan = a.claimed pending plan := by
  induction pending generalizing plan with
  | nil => rfl
  | cons p rest ih => simp only [claimed, assignments_pruneOf h, ih]

/-- A holder is left if there are more than were reserved. -/
theorem eligible_ne_nil (hfiled : a.Filed) {claims : List Claim} {plan : YieldPlan}
    (h : Demands claims plan) {pool : String} {state : RuntimePool}
    (hmore : (claims.filter fun claim => decide (claim.pool = pool)).length <
      (a.eligible state ∅).length) : a.eligible state (plan.reserved pool) ≠ [] := by
  intro hnil
  have hsubset : ((a.eligible state ∅).map (·.grant.leaseId)).toFinset ⊆
      ((claims.filter fun claim => decide (claim.pool = pool)).map (·.leaseId)).toFinset := by
    intro leaseId hmem
    obtain ⟨held, hheld, rfl⟩ := List.mem_map.mp (List.mem_toFinset.mp hmem)
    obtain ⟨hget, hholder, hrank, -⟩ := (mem_eligible_iff hfiled).mp hheld
    have hreserved : held.grant.leaseId ∈ plan.reserved pool := by
      by_contra hfree
      have heligible := (mem_eligible_iff hfiled).mpr ⟨hget, hholder, hrank, hfree⟩
      rw [hnil] at heligible
      cases heligible
    obtain ⟨claim, hclaim, hpool, hlease⟩ := (h.reserved pool _).mp hreserved
    exact List.mem_toFinset.mpr (List.mem_map.mpr
      ⟨claim, List.mem_filter.mpr ⟨hclaim, decide_eq_true hpool⟩, hlease⟩)
  have hcard := Finset.card_le_card hsubset
  rw [List.toFinset_card_of_nodup (nodup_eligible hfiled state ∅), List.length_map] at hcard
  have hle := List.toFinset_card_le
    ((claims.filter fun claim => decide (claim.pool = pool)).map (·.leaseId))
  rw [List.length_map] at hle
  omega

/-- An interrupt finds a victim in each of its full pools if there are enough of them. -/
theorem claimed_of_enough (hfiled : a.Filed) {front rest : List PendingRequest} {p : PendingRequest}
    (henough : ∀ pool ∈ p.request.pools, a.isFull pool = true →
      ((a.claimed front emptyPlan).filter fun claim => decide (claim.pool = pool)).length <
        (a.lowerHolders pool).length)
    {pool : String} (hpool : pool ∈ p.request.pools) (hfull : a.isFull pool = true) :
    ∃ claim ∈ a.claimed (front ++ p :: rest) emptyPlan,
      claim.ticketId = p.ticketId ∧ claim.pool = pool := by
  have hdemands : Demands (a.claimed front emptyPlan) (a.planFor front emptyPlan) :=
    demands_planFor demands_nil front
  have hsome : a.assignments (a.planFor front emptyPlan) p.ticketId p.request.pools ≠ none := by
    intro hnone
    obtain ⟨q, hq, hqfull, hvictim⟩ := assignments_eq_none_iff.mp hnone
    obtain ⟨state, hstate, -⟩ := isFull_iff.mp hqfull
    have hmore := henough q hq hqfull
    rw [lowerHolders, hstate] at hmore
    rw [victim, hstate, Option.bind_some, Option.map_eq_none_iff, yieldCandidate_eq_none] at hvictim
    exact eligible_ne_nil hfiled hdemands hmore hvictim
  obtain ⟨assigned, hassigned⟩ := Option.ne_none_iff_exists'.mp hsome
  have hmem : pool ∈ assigned.map (·.pool) :=
    assignments_pools hassigned ▸ List.mem_filter.mpr ⟨hpool, hfull⟩
  obtain ⟨found, hfound, rfl⟩ := List.mem_map.mp hmem
  refine ⟨⟨found, p.ticketId⟩, ?_, rfl, rfl⟩
  rw [claimed_append, claimed, hassigned]
  exact List.mem_append_right _ (List.mem_append_left _ (List.mem_map.mpr ⟨found, hfound, rfl⟩))

/-- The request of a ticket, in the order of `now`. -/
theorem exists_refreshed {p : PendingRequest} (hp : p ∈ a.pending) :
    ∃ q ∈ (a.refreshAgedOrder now).pending, q.ticketId = p.ticketId ∧ q.request = p.request := by
  rcases a.refreshAgedOrder_cases now with hr | hr <;> rw [hr]
  · refine ⟨{ p with effectiveRank := effectiveRankAt p now a.agingThreshold }, ?_, rfl, rfl⟩
    exact (perm_sortByKey _).mem_iff.mpr (List.mem_map.mpr ⟨p, hp, rfl⟩)
  · exact ⟨p, hp, rfl, rfl⟩

/-- What stands before a ticket that occurs once. -/
theorem takeWhile_ticket {front rest : List PendingRequest} {p : PendingRequest}
    (hnodup : ((front ++ p :: rest).map (·.ticketId)).Nodup) :
    (front ++ p :: rest).takeWhile (fun q => decide (q.ticketId ≠ p.ticketId)) = front := by
  rw [List.takeWhile_append_of_pos, List.takeWhile_cons_of_neg (by simp), List.append_nil]
  intro q hq
  rw [decide_eq_true_iff]
  intro heq
  rw [List.map_append, List.map_cons] at hnodup
  exact (List.disjoint_of_nodup_append hnodup) (List.mem_map.mpr ⟨q, hq, rfl⟩)
    (heq ▸ List.mem_cons_self)

/-- An interrupt that a reconciliation plans for, and that waits for lower holders only, has a claim in
each of its full pools. -/
theorem claims_of_onlyLower (h : a.Orderly) {p : PendingRequest} (hp : p ∈ a.pending)
    (hinterrupt : p.request.priority = .interrupt) (hplans : a.PlansFor now p)
    (honly : a.OnlyLower now p) {after : LeaseEngine}
    (hrec : (reconcileYieldDemands now).exec a = (.ok (), after)) {pool : String}
    (hpool : pool ∈ p.request.pools) (hfull : a.isFull pool = true) :
    ∃ leaseId, after.Claims p.ticketId pool leaseId := by
  obtain ⟨mid, deadline, hmid, -, hpruned, rfl⟩ := reconcile_mid h hrec
  obtain ⟨q, hq, hticket, hrequest⟩ := @exists_refreshed a now p hp
  have hfresh : (a.refreshAgedOrder now).Orderly :=
    h.moves (Move.resort.moves : Moves 0 now (fun _ => False) a _)
  have hmem : q ∈ (a.refreshAgedOrder now).interrupts := by
    rw [interrupts, List.mem_filter, decide_eq_true_iff, hrequest]
    exact ⟨hq, hinterrupt⟩
  obtain ⟨front, rest, hsplit⟩ := List.append_of_mem hmem
  have hnodup : (((a.refreshAgedOrder now).interrupts).map (·.ticketId)).Nodup := by
    have hpending : ((a.refreshAgedOrder now).pending.map (·.ticketId)).Nodup :=
      (List.nodup_append.mp (List.nodup_append.mp hfresh.tickets.nodup).1).2.1
    exact (List.filter_sublist.map _).nodup hpending
  have hqueue : a.inFront now p = front := by
    rw [inFront, hsplit, ← hticket]
    exact takeWhile_ticket (hsplit ▸ hnodup)
  have hfits : (a.refreshAgedOrder now).windowsFit now q = true := by
    rw [windowsFit, hrequest, List.all_eq_true]
    intro pool hpool
    rw [windowFits, refreshAgedOrder_pools]
    exact windowFits_iff.mpr (plansFor_iff.mp hplans pool hpool)
  have hactive : mid.activeInterrupts now =
      front.filter ((a.refreshAgedOrder now).windowsFit now) ++
        q :: rest.filter ((a.refreshAgedOrder now).windowsFit now) := by
    rw [activeInterrupts, windowsFit_pruneOf hpruned.pruneOf, interrupts, hpruned.pruneOf.pending_eq]
    change ((a.refreshAgedOrder now).interrupts).filter _ = _
    rw [hsplit, List.filter_append, List.filter_cons_of_pos hfits]
  have hfullEq : mid.isFull = a.isFull := by
    rw [isFull_pruneOf hpruned.pruneOf]
    funext pool
    rw [isFull, isFull, refreshAgedOrder_pools]
  have hlower : ∀ pool, mid.lowerHolders pool = a.lowerHolders pool := by
    intro pool
    rw [lowerHolders_pruneOf hpruned.pruneOf, lowerHolders, lowerHolders, refreshAgedOrder_pools]
    simp only [eligible, refreshAgedOrder_held]
  have henough : ∀ pool ∈ q.request.pools, mid.isFull pool = true →
      ((mid.claimed (front.filter ((a.refreshAgedOrder now).windowsFit now)) emptyPlan).filter
        fun claim => decide (claim.pool = pool)).length < (mid.lowerHolders pool).length := by
    intro pool hpool hpoolFull
    rw [hlower, claimed_pruneOf hpruned.pruneOf, ← hqueue]
    rw [hrequest] at hpool
    rw [hfullEq] at hpoolFull
    exact honly.holders pool hpool hpoolFull
  obtain ⟨claim, hclaim, hclaimTicket, hclaimPool⟩ := @claimed_of_enough mid
    hmid.tickets.key _ (rest.filter ((a.refreshAgedOrder now).windowsFit now)) q
    henough pool (hrequest ▸ hpool) (by rw [hfullEq]; exact hfull)
  rw [← hactive] at hclaim
  exact ⟨claim.leaseId, (reconciled_claims_iff hmid.tickets).mpr
    ⟨claim, hclaim, hclaimTicket.trans hticket, hclaimPool, rfl⟩⟩

end

end LeaseEngine

open LeaseEngine

/-- In every state that calls reach, also within a call: planning and granting agree on the windows of a
pending interrupt, and it has demands on a holder of each of its full pools where it waits for lower
holders only, if and only if its windows have room for its estimate once more where it was charged
before. -/
theorem window_tests_agree_iff {engine : LeaseEngine} (hstart : engine.Started) (ops : List Op)
    {base : Nat} {time : Time} {own : LeaseRequest → Prop} {mid : LeaseEngine}
    (hmid : Moves base time own (engine.run ops) mid) {p : PendingRequest} (hp : p ∈ mid.pending)
    (hinterrupt : p.request.priority = .interrupt) (now : Time) :
    ((mid.PlansFor now p ↔ mid.GrantsWindows now p.request) ∧
      ∀ after, (reconcileYieldDemands now).exec mid = (.ok (), after) → mid.OnlyLower now p →
        ∀ pool ∈ p.request.pools, mid.isFull pool = true →
          ∃ leaseId, after.Claims p.ticketId pool leaseId) ↔
      mid.RoomAgain now p.request := by
  constructor
  · exact fun h => tests_agree_iff.mp h.1
  · intro hroom
    have hagree := tests_agree_iff.mpr hroom
    refine ⟨hagree, fun after hrec honly pool hpool hfull => ?_⟩
    exact claims_of_onlyLower ((hstart.orderly ops).moves hmid) hp hinterrupt (hagree.mpr honly.windows)
      honly hrec hpool hfull

/-! A retried interrupt whose budget is used up by its own first attempt. -/

def retryPools : Dict String PoolConfig :=
  Dict.insert (Dict.insert ∅ "gpu" { resource := some .slot }) "tokens"
    { resource := some .budget, predicate := .windowedConsumption { windowSec := 3600, consumptionCap := 10 } }

def retryEngine : LeaseEngine :=
  { epoch := 1, yieldGrace := 1000, agingThreshold := 1000000, events := none
    pools := retryPools.mapVals fun _ config => RuntimePool.new config }

def retryRequest (estimate : Nat) : LeaseRequest :=
  { jobId := "urgent", unit := "urgent", pools := ["gpu", "tokens"], priority := .interrupt
    admissionKey := some "urgent", consumptionEstimate := some estimate }

def retryOps (estimate : Nat) : List Op :=
  [.admitAt (retryRequest estimate) 0, .releaseAt "lease-1-1" 1 10,
    .admitAt { hardRequest "batch" .low with pools := ["gpu"] } 20, .admitAt (retryRequest estimate) 30]

def retried (estimate : Nat) : PendingRequest :=
  { ticketId := "lease-1-3", sequence := 3, admittedAt := 30, effectiveRank := 1000
    request := retryRequest estimate }

theorem retryEngine_started : retryEngine.Started :=
  .new (show newWithAgingThreshold 1 1000 1000000 retryPools none = .ok retryEngine from rfl)

/-- `can_grant` would take the retried interrupt but for the batch job, and nobody asks that to yield. -/
theorem retried_interrupt_asks_nobody :
    retried 10 ∈ (retryEngine.run (retryOps 10)).pending ∧
      ¬ (retryEngine.run (retryOps 10)).PlansFor 40 (retried 10) ∧
      (retryEngine.run (retryOps 10)).GrantsWindows 40 (retryRequest 10) ∧
      (∃ held ∈ (retryEngine.run (retryOps 10)).lowerHolders "gpu", held.grant.jobId = "batch") ∧
      ((reconcileYieldDemands 40).exec (retryEngine.run (retryOps 10))).1 = .ok () ∧
      ∀ held ∈ ((reconcileYieldDemands 40).exec (retryEngine.run (retryOps 10))).2.held.values,
        held.yieldDemands.get? "lease-1-3" = none := by
  refine ⟨by decide +kernel, ?_, ?_, ?_, by decide +kernel, by decide +kernel⟩
  · rw [PlansFor]
    decide +kernel
  · refine grantsWindows_iff.mpr fun pool hpool => windowFits_iff.mp ?_
    revert pool
    decide +kernel
  · decide +kernel

/-- With half of the budget the retried interrupt asks the batch job to yield. -/
theorem window_tests_agree_iff_retried :
    (retryEngine.run (retryOps 5)).RoomAgain 40 (retryRequest 5) ∧
      ((retryEngine.run (retryOps 5)).PlansFor 40 (retried 5) ↔
        (retryEngine.run (retryOps 5)).GrantsWindows 40 (retryRequest 5)) ∧
      ∃ after, (reconcileYieldDemands 40).exec (retryEngine.run (retryOps 5)) = (.ok (), after) ∧
        ∃ leaseId, after.Claims "lease-1-3" "gpu" leaseId := by
  have hroom : (retryEngine.run (retryOps 5)).RoomAgain 40 (retryRequest 5) := by
    intro _ _ pool hpool
    refine windowFits_iff.mp ?_
    revert pool
    decide +kernel
  have hrec := Eff.exec_eq_of_fst (show ((reconcileYieldDemands 40).exec
    (retryEngine.run (retryOps 5))).1 = .ok () by decide +kernel)
  have hmid : Moves 0 0 (fun _ => False) (retryEngine.run (retryOps 5)) (retryEngine.run (retryOps 5)) :=
    .refl
  have hpending : retried 5 ∈ (retryEngine.run (retryOps 5)).pending := by decide +kernel
  obtain ⟨hagree, hclaims⟩ :=
    (window_tests_agree_iff retryEngine_started (retryOps 5) hmid hpending rfl 40).mpr hroom
  have hgrants : (retryEngine.run (retryOps 5)).GrantsWindows 40 (retryRequest 5) := by
    refine grantsWindows_iff.mpr fun pool hpool => windowFits_iff.mp ?_
    revert pool
    decide +kernel
  refine ⟨hroom, hagree, _, hrec, hclaims _ hrec ⟨hgrants, ?_⟩ "gpu" (by decide) (by decide +kernel)⟩
  decide +kernel

end Tally.Lease
