import Tally.Lease.WindowTest
import Tally.Lease.YieldMatching

/-!
# A reconciliation twice

A second reconciliation at the same instant finds for each interrupt the victims that it has, or none as
before, and so changes nothing (`reconcile_again`). What `plan_tick` lists is then still held and still
due when `commit_preemptions` comes to it.
-/

namespace Tally.Lease

namespace LeaseEngine

/-! ## The same victims -/

/-- The engines differ in the demands on the leases only. -/
structure SameLeases (a b : LeaseEngine) : Prop where
  pools : b.pools = a.pools
  grants : ∀ id, (b.held.get? id).map (·.grant) = (a.held.get? id).map (·.grant)

section

variable {a b : LeaseEngine}

theorem SameLeases.symm (h : SameLeases a b) : SameLeases b a :=
  ⟨h.pools.symm, fun id => (h.grants id).symm⟩

theorem SameLeases.isFull_eq (h : SameLeases a b) : b.isFull = a.isFull := by
  funext pool
  rw [isFull, isFull, h.pools]

/-- Leases are filed under the ids of their grants. -/
def Filed (engine : LeaseEngine) : Prop :=
  ∀ id held, engine.held.get? id = some held → held.grant.leaseId = id

theorem SameLeases.held (h : SameLeases a b) {id : String} {held : HeldLease}
    (hheld : a.held.get? id = some held) : ∃ held', b.held.get? id = some held' ∧ held'.grant = held.grant := by
  have hgrant := h.grants id
  rw [hheld] at hgrant
  exact Option.map_eq_some_iff.mp hgrant

theorem SameLeases.filed (h : SameLeases a b) (hfiled : a.Filed) : b.Filed := by
  intro id held hheld
  obtain ⟨old, hold, hgrant⟩ := h.symm.held hheld
  rw [← hgrant]
  exact hfiled id old hold

theorem mem_eligible_iff (hfiled : a.Filed) {state : RuntimePool} {reserved : Finset String}
    {held : HeldLease} : held ∈ a.eligible state reserved ↔
      a.held.get? held.grant.leaseId = some held ∧ held.grant.leaseId ∈ state.holders ∧
        held.grant.priority.rank < Priority.interrupt.rank ∧ held.grant.leaseId ∉ reserved := by
  constructor
  · intro h
    obtain ⟨hget, hholder, hrank⟩ := mem_eligible hfiled h
    exact ⟨hget, hholder, hrank, not_reserved_of_mem_eligible h⟩
  · rintro ⟨hget, hholder, hrank, hreserved⟩
    rw [eligible, List.mem_filter, decide_eq_true_iff]
    refine ⟨List.mem_map.mpr ⟨(held.grant.leaseId, held), ?_, rfl⟩, hrank, hreserved⟩
    rw [List.mem_filter, decide_eq_true_iff]
    exact ⟨a.held.mem_entries_iff.mpr hget, hholder⟩

/-- The eligible holders are the same leases. -/
theorem SameLeases.eligible (h : SameLeases a b) (hfiled : a.Filed) {state : RuntimePool}
    {reserved : Finset String} {held : HeldLease} (hheld : held ∈ a.eligible state reserved) :
    ∃ held' ∈ b.eligible state reserved, held'.grant = held.grant ∧
      b.held.get? held.grant.leaseId = some held' := by
  obtain ⟨hget, hrest⟩ := (mem_eligible_iff hfiled).mp hheld
  obtain ⟨held', hget', hgrant⟩ := h.held hget
  refine ⟨held', (mem_eligible_iff (h.filed hfiled)).mpr ?_, hgrant, hget'⟩
  rw [hgrant]
  exact ⟨hget', hrest⟩

theorem yieldCandidate_eq_none {engine : LeaseEngine} {state : RuntimePool} {reserved : Finset String}
    {pool ticketId : String} :
    engine.yieldCandidate state reserved pool ticketId = none ↔ engine.eligible state reserved = [] := by
  rw [yieldCandidate, Option.or_eq_none_iff, List.argmin_eq_none, List.argmin_eq_none]
  constructor
  · exact fun h => h.2
  · intro h
    rw [h]
    exact ⟨rfl, rfl⟩

section

variable {plan : YieldPlan} {ticketId pool : String}

theorem SameLeases.victim_none (h : SameLeases a b) (hfiled : a.Filed)
    (hnone : a.victim plan ticketId pool = none) : b.victim plan ticketId pool = none := by
  rw [victim, h.pools]
  rw [victim] at hnone
  cases hstate : a.pools.get? pool with
  | none => rfl
  | some state =>
    rw [hstate, Option.bind_some, Option.map_eq_none_iff, yieldCandidate_eq_none] at hnone
    rw [Option.bind_some, Option.map_eq_none_iff, yieldCandidate_eq_none]
    refine List.eq_nil_iff_forall_not_mem.mpr fun held hheld => ?_
    obtain ⟨old, hold, -⟩ := h.symm.eligible (h.filed hfiled) hheld
    rw [hnone] at hold
    cases hold

/-- An interrupt finds the victim again that it claims. -/
theorem SameLeases.victim_again (h : SameLeases a b) (hfiled : a.Filed) {found : Assignment}
    (hfound : a.victim plan ticketId pool = some found)
    (hclaims : ∀ leaseId, b.Claims ticketId pool leaseId ↔ leaseId = found.leaseId) :
    b.victim plan ticketId pool = some found := by
  obtain ⟨state, held, hstate, hheld, rfl⟩ := victim_eq_some hfound
  obtain ⟨held', heligible, hgrant, hget⟩ := h.eligible hfiled (yieldCandidate_mem hheld)
  have hprefers : ∀ lease ∈ b.eligible state (plan.reserved pool),
      ((lease.yieldDemands.get? ticketId).any fun demand => decide (pool ∈ demand.pools)) = true ↔
        lease.grant.leaseId = held.grant.leaseId := by
    intro lease hlease
    rw [← hclaims lease.grant.leaseId, Claims, demandAt,
      ((mem_eligible_iff (h.filed hfiled)).mp hlease).1, Option.bind_some, Option.any_eq_true]
    simp only [decide_eq_true_eq]
  have hmem : held' ∈ (b.eligible state (plan.reserved pool)).filter fun lease =>
      (lease.yieldDemands.get? ticketId).any fun demand => decide (pool ∈ demand.pools) :=
    List.mem_filter.mpr ⟨heligible, (hprefers held' heligible).mpr (by rw [hgrant])⟩
  cases hmin : ((b.eligible state (plan.reserved pool)).filter fun lease =>
      (lease.yieldDemands.get? ticketId).any fun demand => decide (pool ∈ demand.pools)).argmin
        (·.grant.leaseId) with
  | none =>
    rw [List.argmin_eq_none.mp hmin] at hmem
    cases hmem
  | some first =>
    obtain ⟨hfirst, hprefer⟩ := List.mem_filter.mp (List.argmin_mem hmin)
    have hlease := (hprefers first hfirst).mp hprefer
    rw [victim, h.pools, hstate, Option.bind_some, yieldCandidate, hmin]
    exact congrArg (fun leaseId => some (Assignment.mk pool leaseId state.config.hardPreempt)) hlease

theorem assignments_eq_none_iff {engine : LeaseEngine} {pools : List String} :
    engine.assignments plan ticketId pools = none ↔
      ∃ pool ∈ pools, engine.isFull pool = true ∧ engine.victim plan ticketId pool = none := by
  induction pools with
  | nil => exact iff_of_false nofun fun ⟨_, h, _⟩ => nomatch h
  | cons pool rest ih =>
    rw [assignments_cons]
    simp only [List.mem_cons, exists_eq_or_imp, ← ih]
    by_cases hfull : engine.isFull pool = true
    · rw [if_pos hfull, and_iff_right hfull, Option.bind_eq_none_iff]
      cases engine.victim plan ticketId pool with
      | none => exact iff_of_true nofun (.inl rfl)
      | some found => simp
    · rw [if_neg hfull]
      exact ⟨.inr, fun h => h.resolve_left fun h => hfull h.1⟩

theorem SameLeases.assignments_none (h : SameLeases a b) (hfiled : a.Filed) {pools : List String}
    (hnone : a.assignments plan ticketId pools = none) : b.assignments plan ticketId pools = none := by
  obtain ⟨pool, hpool, hfull, hvictim⟩ := assignments_eq_none_iff.mp hnone
  exact assignments_eq_none_iff.mpr ⟨pool, hpool, by rw [h.isFull_eq]; exact hfull,
    h.victim_none hfiled hvictim⟩

theorem SameLeases.assignments_again (h : SameLeases a b) (hfiled : a.Filed) {pools : List String}
    {assigned : List Assignment} (hassigned : a.assignments plan ticketId pools = some assigned)
    (hclaims : ∀ found ∈ assigned, ∀ leaseId,
      b.Claims ticketId found.pool leaseId ↔ leaseId = found.leaseId) :
    b.assignments plan ticketId pools = some assigned := by
  induction pools generalizing assigned with
  | nil => exact hassigned
  | cons pool rest ih =>
    rw [assignments_cons] at hassigned
    rw [assignments_cons, h.isFull_eq]
    split at hassigned
    · next hfull =>
      obtain ⟨found, hfound, hassigned⟩ := Option.bind_eq_some_iff.mp hassigned
      obtain ⟨more, hmore, rfl⟩ := Option.map_eq_some_iff.mp hassigned
      rw [List.forall_mem_cons] at hclaims
      obtain ⟨state, held, -, -, heq⟩ := victim_eq_some hfound
      have hpool : found.pool = pool := by rw [heq]
      rw [if_pos hfull, h.victim_again hfiled hfound (hpool ▸ hclaims.1), Option.bind_some,
        ih hmore hclaims.2]
      rfl
    · next hfull =>
      rw [if_neg hfull]
      exact ih hassigned hclaims

end

/-- The same plan, if the demands of the second engine are the claims of the first. -/
theorem SameLeases.planFor_again (h : SameLeases a b) (hfiled : a.Filed) {pending : List PendingRequest}
    {plan : YieldPlan} (htickets : (pending.map (·.ticketId)).Nodup)
    (hpools : ∀ p ∈ pending, p.request.pools.Nodup)
    (hclaims : ∀ p ∈ pending, ∀ pool leaseId, b.Claims p.ticketId pool leaseId ↔
      ∃ claim ∈ a.claimed pending plan,
        claim.ticketId = p.ticketId ∧ claim.pool = pool ∧ claim.leaseId = leaseId) :
    b.planFor pending plan = a.planFor pending plan := by
  induction pending generalizing plan with
  | nil => rfl
  | cons p rest ih =>
    rw [List.map_cons, List.nodup_cons] at htickets
    obtain ⟨hfresh, hrestTickets⟩ := htickets
    rw [List.forall_mem_cons] at hpools
    have hother : ∀ {plan} {claim : Claim}, claim ∈ a.claimed rest plan →
        claim.ticketId ≠ p.ticketId := by
      intro plan claim hclaim heq
      obtain ⟨r, hr, -, -, -, -, hticket⟩ := mem_claimed hclaim
      exact hfresh (List.mem_map.mpr ⟨r, hr, hticket.symm.trans heq⟩)
    have hne : ∀ q ∈ rest, p.ticketId ≠ q.ticketId :=
      fun q hq heq => hfresh (List.mem_map.mpr ⟨q, hq, heq.symm⟩)
    rw [planFor, planFor]
    rw [claimed] at hclaims
    cases hassigned : a.assignments plan p.ticketId p.request.pools with
    | none =>
      rw [hassigned] at hclaims
      rw [h.assignments_none hfiled hassigned]
      exact ih hrestTickets hpools.2 fun q hq => hclaims q (List.mem_cons_of_mem _ hq)
    | some assigned =>
      rw [hassigned] at hclaims
      have hnodup : (assigned.map (·.pool)).Nodup := by
        rw [assignments_pools hassigned]
        exact hpools.1.filter _
      have hown : ∀ found ∈ assigned, ∀ leaseId,
          b.Claims p.ticketId found.pool leaseId ↔ leaseId = found.leaseId := by
        intro found hfound leaseId
        rw [hclaims p List.mem_cons_self]
        constructor
        · rintro ⟨claim, hclaim, hticket, hpool, rfl⟩
          rcases List.mem_append.mp hclaim with hclaim | hclaim
          · obtain ⟨other, hmem, rfl⟩ := List.mem_map.mp hclaim
            have heq : other = found := List.inj_on_of_nodup_map hnodup hmem hfound hpool
            rw [heq]
          · exact absurd hticket (hother hclaim)
        · rintro rfl
          exact ⟨⟨found, p.ticketId⟩, List.mem_append_left _ (List.mem_map.mpr ⟨found, hfound, rfl⟩),
            rfl, rfl, rfl⟩
      rw [h.assignments_again hfiled hassigned hown]
      refine ih hrestTickets hpools.2 fun q hq pool leaseId => ?_
      rw [hclaims q (List.mem_cons_of_mem _ hq)]
      constructor
      · rintro ⟨claim, hclaim, hticket, hplace⟩
        rcases List.mem_append.mp hclaim with hclaim | hclaim
        · obtain ⟨found, -, rfl⟩ := List.mem_map.mp hclaim
          exact absurd hticket (hne q hq)
        · exact ⟨claim, hclaim, hticket, hplace⟩
      · rintro ⟨claim, hclaim, hplace⟩
        exact ⟨claim, List.mem_append_right _ hclaim, hplace⟩

end

/-! ## Nothing changes -/

/-- The engines agree but for the history, which no call reads. -/
structure SameState (a b : LeaseEngine) : Prop where
  frame : b = { a with pools := b.pools, trace := b.trace }
  pools : ∀ pool, b.pools.get? pool = a.pools.get? pool

section

variable {a b : LeaseEngine} {now deadline : Time}

theorem sameLeases_reconciled : SameLeases a (a.reconciled now deadline) := by
  refine ⟨rfl, fun id => ?_⟩
  change ((a.held.mapVals _).get? id).map _ = _
  rw [Dict.get?_mapVals, Option.map_map]
  rfl

/-- Planning again comes to the same plan. -/
theorem planFor_reconciled (ht : a.TicketInv) (hq : a.QueueOk) :
    (a.reconciled now deadline).planFor (a.activeInterrupts now) emptyPlan =
      a.planFor (a.activeInterrupts now) emptyPlan := by
  refine sameLeases_reconciled.planFor_again ht.key (nodup_activeInterrupts ht) (fun p hp => ?_)
    fun p hp pool leaseId => reconciled_claims_iff ht
  exact (hq p (mem_activeInterrupts hp).1).canonical.nodup

theorem updateDemand_again (deadline : Time) (intent : YieldIntent) (old : Option YieldDemand) :
    updateDemand deadline intent (some (updateDemand deadline intent old)) =
      updateDemand deadline intent old := by
  have hpools := updateDemand_pools deadline intent old
  have hhard := updateDemand_hardReclaim deadline intent old
  generalize updateDemand deadline intent old = demand at hpools hhard
  obtain ⟨kept, hard, pools⟩ := demand
  cases hpools
  cases hhard
  simp [updateDemand]

theorem updateHeld_again (desired : Dict String (Dict String YieldIntent)) (deadline : Time)
    (leaseId : String) (held : HeldLease) :
    updateHeld desired deadline leaseId (updateHeld desired deadline leaseId held) =
      updateHeld desired deadline leaseId held := by
  simp only [updateHeld]
  cases desired.get? leaseId with
  | none => rfl
  | some tickets =>
    dsimp only
    congr 1
    refine Dict.mapVals_congr fun ticketId intent hintent => ?_
    rw [Dict.get?_mapVals, hintent, Option.map_some, updateDemand_again]

theorem activeInterrupts_congr (hpending : b.pending = a.pending) (hpools : b.pools = a.pools) :
    b.activeInterrupts now = a.activeInterrupts now := by
  have hfits : b.windowsFit now = a.windowsFit now := by
    funext p
    rw [windowsFit, windowsFit]
    congr 1
    funext pool
    rw [windowFits, windowFits, hpools]
  rw [activeInterrupts, activeInterrupts, hfits, interrupts, interrupts, hpending]

theorem held_reconciled_again (ht : a.TicketInv) (hq : a.QueueOk)
    (hp : PruneOf now (a.reconciled now deadline) b) :
    (b.reconciled now deadline).held = (a.reconciled now deadline).held := by
  have hactive : b.activeInterrupts now = a.activeInterrupts now := by
    rw [activeInterrupts, windowsFit_pruneOf hp, interrupts, hp.pending_eq]
    exact activeInterrupts_congr rfl rfl
  have hplan : b.planFor (b.activeInterrupts now) emptyPlan =
      a.planFor (a.activeInterrupts now) emptyPlan := by
    rw [hactive, planFor_pruneOf hp, planFor_reconciled ht hq]
  change b.held.mapVals _ = a.held.mapVals _
  rw [hplan, hp.held_eq]
  change (a.held.mapVals _).mapVals _ = _
  rw [Dict.mapVals_mapVals]
  exact Dict.mapVals_congr fun id held _ => updateHeld_again _ deadline id held

/-- With the same demands a reconciliation changes the pools and the history at most. -/
theorem reconciled_frame (hframe : b = { a with pools := b.pools })
    (hheld : (b.reconciled now deadline).held = a.held) :
    b.reconciled now deadline = { a with
      pools := (b.reconciled now deadline).pools, trace := (b.reconciled now deadline).trace } := by
  obtain ⟨pools, rfl⟩ : ∃ pools, b = { a with pools } := ⟨b.pools, hframe⟩
  generalize htrace : (LeaseEngine.reconciled { a with pools } now deadline).trace = trace
  exact htrace ▸ congrArg (fun held => ({ a with
    pools, held, trace := (LeaseEngine.reconciled { a with pools } now deadline).trace } : LeaseEngine)) hheld

/-- The states in which a reconciliation plans. -/
structure Orderly (engine : LeaseEngine) : Prop where
  tickets : engine.TicketInv
  holders : engine.HolderInv
  queue : engine.QueueOk

theorem Orderly.moves {base : Nat} {own : LeaseRequest → Prop} (h : a.Orderly)
    (hmoves : Moves base now own a b) : b.Orderly := by
  refine hmoves.invariant (P := Orderly) (fun hmove h => ?_) h
  exact ⟨hmove.ticketInv h.tickets, hmove.holderInv h.tickets h.holders, hmove.queueOk h.queue⟩

/-- A reconciliation leaves the engine as an orderly one is reconciled. -/
theorem reconcile_mid (h : a.Orderly) {after : LeaseEngine}
    (hrec : (reconcileYieldDemands now).exec a = (.ok (), after)) :
    ∃ mid deadline, mid.Orderly ∧ a.yieldDeadline now = .ok deadline ∧
      Pruned now ((a.refreshAgedOrder now).looked now (a.refreshAgedOrder now).interrupts)
        (a.refreshAgedOrder now) mid ∧ after = mid.reconciled now deadline := by
  obtain ⟨mid, deadline, hdeadline, hpruned, hafter⟩ := (reconcile_look hrec).2 rfl
  have hmoves : Moves 0 now (fun _ => False) a mid := Move.resort.moves.tail (.prune hpruned.pruneOf)
  exact ⟨mid, deadline, h.moves hmoves, hdeadline, hpruned, hafter⟩

theorem reconcile_again (h : a.Orderly) {after : LeaseEngine}
    (hrec : (reconcileYieldDemands now).exec a = (.ok (), after)) :
    ∃ again, (reconcileYieldDemands now).exec after = (.ok (), again) ∧ SameState after again := by
  obtain ⟨mid, deadline, hmid, hdeadline, hpruned, rfl⟩ := reconcile_mid h hrec
  have hread := ((reconcile_look hrec).1.mp rfl).1
  -- the first reconciliation has put the queue in the order of `now`
  have hranked : (mid.reconciled now deadline).Ranked now := by
    refine (ranked_refreshAgedOrder a now).of_frame ?_ fun q hq => ?_
    · change mid.agingThreshold = _
      rw [hpruned.frame]
    · change q ∈ mid.pending at hq
      rwa [hpruned.pruneOf.pending_eq] at hq
  have horder := hranked.refreshAgedOrder_eq
  have hinterrupts : (mid.reconciled now deadline).interrupts = (a.refreshAgedOrder now).interrupts := by
    change mid.interrupts = _
    rw [interrupts, hpruned.pruneOf.pending_eq]
    rfl
  have hpools : (mid.reconciled now deadline).pools = mid.pools := rfl
  have hlook : ∀ request pools, (mid.reconciled now deadline).look now request pools =
      (a.refreshAgedOrder now).look now request pools := by
    intro request pools
    rw [look_congr hpools, look_pruneOf hpruned.pruneOf]
  have hgrace : (mid.reconciled now deadline).yieldDeadline now = .ok deadline := by
    rw [← hdeadline]
    change mid.yieldDeadline now = _
    rw [hpruned.frame, refreshAgedOrder_frame]
    rfl
  cases hexec : (reconcileYieldDemands now).exec (mid.reconciled now deadline) with
  | mk result again =>
    obtain ⟨hiff, hagain⟩ := reconcile_look hexec
    rw [horder, hinterrupts] at hiff hagain
    have hresult : result = .ok () := by
      refine hiff.mpr ⟨fun p hp => ?_, deadline, hgrace⟩
      rw [hlook]
      exact hread p hp
    obtain ⟨last, deadline', hdeadline', hprunes, rfl⟩ := hagain hresult
    rw [hgrace] at hdeadline'
    cases hdeadline'
    have hlooked : (mid.reconciled now deadline).looked now (a.refreshAgedOrder now).interrupts =
        (a.refreshAgedOrder now).looked now (a.refreshAgedOrder now).interrupts := by
      simp only [looked, hlook]
    rw [hlooked] at hprunes
    refine ⟨_, by rw [hresult], ?_, ?_⟩
    · exact reconciled_frame hprunes.frame
        (held_reconciled_again hmid.tickets hmid.queue hprunes.pruneOf)
    · intro pool
      change last.pools.get? pool = mid.pools.get? pool
      rw [hprunes.get? pool]
      split
      · next hlooked => exact hpruned.map_prune hlooked
      · rfl

end

end LeaseEngine

end Tally.Lease
