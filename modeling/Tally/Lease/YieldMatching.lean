import Tally.Lease.Conservation
import Tally.Lease.YieldPlan

/-!
# Yield demands are a matching

After a reconciliation the demands of the pending interrupts on the leases are a matching: each
interrupt has one victim in each of its full pools or asks for nothing, and no two interrupts ask for
one lease in one pool (`YieldMatching`). A second reconciliation at the same instant finds the same
victims, since an interrupt prefers those it has; so what `plan_tick` lists can be preempted.
-/

namespace Tally.Lease

namespace LeaseEngine

variable {engine : LeaseEngine}

/-! ## Demands on leases -/

section

variable (engine : LeaseEngine)

/-- The demand of a ticket on a held lease. -/
def demandAt (leaseId ticketId : String) : Option YieldDemand :=
  (engine.held.get? leaseId).bind (·.yieldDemands.get? ticketId)

/-- The ticket asks for the lease in this pool. -/
def Claims (ticketId pool leaseId : String) : Prop :=
  ∃ demand, engine.demandAt leaseId ticketId = some demand ∧ pool ∈ demand.pools

structure YieldMatching : Prop where
  names : ∀ leaseId lease ticketId demand, engine.held.get? leaseId = some lease →
    lease.yieldDemands.get? ticketId = some demand → ∃ p ∈ engine.pending, p.ticketId = ticketId ∧
      p.request.priority = .interrupt ∧ ∀ pool ∈ demand.pools,
        pool ∈ p.request.pools ∧ pool ∈ lease.grant.pools ∧ engine.isFull pool = true
  once : ∀ pool leaseId left right, engine.Claims left pool leaseId → engine.Claims right pool leaseId →
    left = right
  whole : ∀ p ∈ engine.pending, p.request.priority = .interrupt →
    (∀ pool ∈ p.request.pools, engine.isFull pool = true →
        ∃! leaseId, engine.Claims p.ticketId pool leaseId) ∨
      ∀ leaseId, engine.demandAt leaseId p.ticketId = none
  hard : ∀ leaseId ticketId demand, engine.demandAt leaseId ticketId = some demand →
    (demand.hardReclaim = true ↔ ∀ pool ∈ demand.pools, ∃ state,
      engine.pools.get? pool = some state ∧ state.config.hardPreempt = true)

end

/-! ## Demands after a reconciliation -/

theorem updateDemand_pools (deadline : Time) (intent : YieldIntent) (old : Option YieldDemand) :
    (updateDemand deadline intent old).pools = intent.pools := by
  cases old <;> rfl

theorem updateDemand_hardReclaim (deadline : Time) (intent : YieldIntent) (old : Option YieldDemand) :
    (updateDemand deadline intent old).hardReclaim = intent.hardReclaim := by
  cases old <;> rfl

section

variable {now deadline : Time}

theorem reconciled_demandAt {leaseId : String} {lease : HeldLease}
    (h : engine.held.get? leaseId = some lease) (ticketId : String) :
    (engine.reconciled now deadline).demandAt leaseId ticketId =
      ((engine.planFor (engine.activeInterrupts now) emptyPlan).intent leaseId ticketId).map fun intent =>
        updateDemand deadline intent (lease.yieldDemands.get? ticketId) := by
  have hheld : (engine.reconciled now deadline).held.get? leaseId = some (updateHeld
      (engine.planFor (engine.activeInterrupts now) emptyPlan).desired deadline leaseId lease) := by
    change (engine.held.mapVals _).get? leaseId = _
    rw [Dict.get?_mapVals, h]
    rfl
  rw [demandAt, hheld, Option.bind_some, updateHeld, YieldPlan.intent]
  dsimp only
  cases (engine.planFor (engine.activeInterrupts now) emptyPlan).desired.get? leaseId with
  | none => rfl
  | some tickets =>
    dsimp only
    rw [Dict.get?_mapVals, Option.bind_some]

theorem held_of_reconciled {leaseId ticketId : String} {demand : YieldDemand}
    (h : (engine.reconciled now deadline).demandAt leaseId ticketId = some demand) :
    ∃ lease, engine.held.get? leaseId = some lease := by
  obtain ⟨lease, hlease, -⟩ := Option.bind_eq_some_iff.mp h
  change (engine.held.mapVals _).get? leaseId = _ at hlease
  rw [Dict.get?_mapVals] at hlease
  obtain ⟨old, hold, -⟩ := Option.map_eq_some_iff.mp hlease
  exact ⟨old, hold⟩

variable (engine now) in
/-- The claims of a reconciliation. -/
def currentClaims : List Claim := engine.claimed (engine.activeInterrupts now) emptyPlan

theorem demands_current :
    Demands (engine.currentClaims now) (engine.planFor (engine.activeInterrupts now) emptyPlan) :=
  demands_planFor demands_nil _

theorem reconciled_intent {leaseId ticketId : String} {demand : YieldDemand}
    (h : (engine.reconciled now deadline).demandAt leaseId ticketId = some demand) :
    ∃ intent, intentOf (wanted (engine.currentClaims now) leaseId ticketId) = some intent ∧
      demand.pools = intent.pools ∧ demand.hardReclaim = intent.hardReclaim := by
  obtain ⟨lease, hlease⟩ := held_of_reconciled h
  rw [reconciled_demandAt hlease, demands_current.intent] at h
  obtain ⟨intent, hintent, rfl⟩ := Option.map_eq_some_iff.mp h
  exact ⟨intent, hintent, updateDemand_pools .., updateDemand_hardReclaim ..⟩

/-- What holds of a claim when its lease is filed under its id. -/
theorem currentClaims_ok (h : engine.TicketInv) {claim : Claim} (hclaim : claim ∈ engine.currentClaims now) :
    ∃ p ∈ engine.activeInterrupts now, claim.ticketId = p.ticketId ∧
      engine.AssignmentOk p.request.pools claim.toAssignment ∧ engine.isFull claim.pool = true := by
  obtain ⟨p, hp, before, assigned, hassigned, hmem, hticket⟩ := mem_claimed hclaim
  refine ⟨p, hp, hticket, assignments_ok h.key hassigned _ hmem, ?_⟩
  have hpool : claim.pool ∈ assigned.map (·.pool) := List.mem_map.mpr ⟨_, hmem, rfl⟩
  rw [assignments_pools hassigned] at hpool
  exact List.of_mem_filter hpool

theorem reconciled_claims_iff (h : engine.TicketInv) {ticketId pool leaseId : String} :
    (engine.reconciled now deadline).Claims ticketId pool leaseId ↔ ∃ claim ∈ engine.currentClaims now,
      claim.ticketId = ticketId ∧ claim.pool = pool ∧ claim.leaseId = leaseId := by
  constructor
  · rintro ⟨demand, hdemand, hpool⟩
    obtain ⟨intent, hintent, hpools, -⟩ := reconciled_intent hdemand
    rw [hpools, (intentOf_eq_some hintent).2, List.mem_toFinset] at hpool
    obtain ⟨claim, hclaim, rfl⟩ := List.mem_map.mp hpool
    obtain ⟨hclaim, hlease, hticket⟩ := mem_wanted.mp hclaim
    exact ⟨claim, hclaim, hticket, rfl, hlease⟩
  · rintro ⟨claim, hclaim, rfl, rfl, rfl⟩
    have hwanted : claim ∈ wanted (engine.currentClaims now) claim.leaseId claim.ticketId :=
      mem_wanted.mpr ⟨hclaim, rfl, rfl⟩
    obtain ⟨p, -, -, hok, -⟩ := currentClaims_ok h hclaim
    obtain ⟨lease, hlease, -⟩ := hok.victim
    cases hintent : intentOf (wanted (engine.currentClaims now) claim.leaseId claim.ticketId) with
    | none =>
      rw [intentOf_eq_none hintent] at hwanted
      cases hwanted
    | some intent =>
      refine ⟨updateDemand deadline intent (lease.yieldDemands.get? claim.ticketId), ?_, ?_⟩
      · rw [reconciled_demandAt hlease, demands_current.intent, hintent]
        rfl
      · rw [updateDemand_pools, (intentOf_eq_some hintent).2, List.mem_toFinset]
        exact List.mem_map.mpr ⟨claim, hwanted, rfl⟩

theorem nodup_activeInterrupts (h : engine.TicketInv) :
    ((engine.activeInterrupts now).map (·.ticketId)).Nodup := by
  have hpending : (engine.pending.map (·.ticketId)).Nodup :=
    (List.nodup_append.mp (List.nodup_append.mp h.nodup).1).2.1
  have hsublist : (engine.activeInterrupts now).Sublist engine.pending :=
    List.filter_sublist.trans List.filter_sublist
  exact (hsublist.map _).nodup hpending

theorem nodup_currentClaims (hqueue : engine.QueueOk) :
    ((engine.currentClaims now).map Claim.place).Nodup := by
  refine claimed_nodup demands_nil List.nodup_nil fun p hp => ?_
  exact (hqueue p (mem_activeInterrupts hp).1).canonical.nodup

/-- Without claims there is no demand. -/
theorem demandAt_none_of_claims {leaseId ticketId : String}
    (h : ∀ claim ∈ engine.currentClaims now, claim.ticketId ≠ ticketId) :
    (engine.reconciled now deadline).demandAt leaseId ticketId = none := by
  cases hdemand : (engine.reconciled now deadline).demandAt leaseId ticketId with
  | none => rfl
  | some demand =>
    obtain ⟨intent, hintent, -⟩ := reconciled_intent hdemand
    cases hwanted : wanted (engine.currentClaims now) leaseId ticketId with
    | nil =>
      rw [hwanted] at hintent
      cases hintent
    | cons claim more =>
      have hmem : claim ∈ wanted (engine.currentClaims now) leaseId ticketId :=
        hwanted ▸ List.mem_cons_self
      obtain ⟨hclaim, -, hticket⟩ := mem_wanted.mp hmem
      exact absurd hticket (h claim hclaim)

theorem reconciled_names (ht : engine.TicketInv) (hh : engine.HolderInv) {leaseId ticketId : String}
    {lease : HeldLease} {demand : YieldDemand}
    (hlease : (engine.reconciled now deadline).held.get? leaseId = some lease)
    (hdemand : lease.yieldDemands.get? ticketId = some demand) :
    ∃ p ∈ engine.pending, p.ticketId = ticketId ∧ p.request.priority = .interrupt ∧
      ∀ pool ∈ demand.pools,
        pool ∈ p.request.pools ∧ pool ∈ lease.grant.pools ∧ engine.isFull pool = true := by
  have hat : (engine.reconciled now deadline).demandAt leaseId ticketId = some demand := by
    rw [demandAt, hlease]
    exact hdemand
  obtain ⟨old, -, -, hold, hgrant, -⟩ := reconciled_demand hlease hdemand
  have hclaims : ∃ claim ∈ engine.currentClaims now, claim.ticketId = ticketId := by
    by_contra hnone
    rw [demandAt_none_of_claims fun claim hclaim heq => hnone ⟨claim, hclaim, heq⟩] at hat
    cases hat
  obtain ⟨first, hfirst, hfirstTicket⟩ := hclaims
  obtain ⟨p, hp, hticket, -⟩ := currentClaims_ok ht hfirst
  obtain ⟨hpending, hinterrupt⟩ := mem_activeInterrupts hp
  refine ⟨p, hpending, hticket.symm.trans hfirstTicket, hinterrupt, fun pool hpool => ?_⟩
  obtain ⟨claim, hclaim, hclaimTicket, rfl, rfl⟩ :=
    (reconciled_claims_iff ht).mp ⟨demand, hat, hpool⟩
  obtain ⟨q, hq, hqticket, hok, hfull⟩ := currentClaims_ok ht hclaim
  have hsame : q = p := ht.pending_unique hpending (mem_activeInterrupts hq).1
    (hqticket.symm.trans (hclaimTicket.trans (hfirstTicket.symm.trans hticket)))
  obtain ⟨state, hstate, hholder, -⟩ := hok.state
  obtain ⟨held, hheld, hmem⟩ := (hh.holders claim.pool state hstate claim.leaseId).mp hholder
  rw [hold] at hheld
  cases hheld
  exact ⟨hsame ▸ hok.pool, hgrant ▸ hmem, hfull⟩

theorem reconciled_once (ht : engine.TicketInv) (hq : engine.QueueOk) {pool leaseId left right : String}
    (hleft : (engine.reconciled now deadline).Claims left pool leaseId)
    (hright : (engine.reconciled now deadline).Claims right pool leaseId) : left = right := by
  obtain ⟨a, ha, rfl, rfl, rfl⟩ := (reconciled_claims_iff ht).mp hleft
  obtain ⟨b, hb, rfl, hpool, hlease⟩ := (reconciled_claims_iff ht).mp hright
  have hplace : a.place = b.place := Prod.ext hpool.symm hlease.symm
  rw [List.inj_on_of_nodup_map (nodup_currentClaims hq) ha hb hplace]

theorem reconciled_whole (ht : engine.TicketInv) (hq : engine.QueueOk) {p : PendingRequest}
    (hp : p ∈ engine.pending) :
    (∀ pool ∈ p.request.pools, engine.isFull pool = true →
        ∃! leaseId, (engine.reconciled now deadline).Claims p.ticketId pool leaseId) ∨
      ∀ leaseId, (engine.reconciled now deadline).demandAt leaseId p.ticketId = none := by
  by_cases hactive : p ∈ engine.activeInterrupts now
  swap
  · right
    refine fun leaseId => demandAt_none_of_claims fun claim hclaim heq => hactive ?_
    obtain ⟨r, hr, hticket, -⟩ := currentClaims_ok ht hclaim
    rwa [← ht.pending_unique hp (mem_activeInterrupts hr).1 (hticket.symm.trans heq)]
  rcases @claimed_whole engine emptyPlan _ (nodup_activeInterrupts ht) p hactive with
    hnone | ⟨before, assigned, hassigned, hiff⟩
  · exact .inr fun leaseId => demandAt_none_of_claims hnone
  left
  intro pool hpool hfull
  have hpools := assignments_pools hassigned
  have hmem : pool ∈ assigned.map (·.pool) := hpools ▸ List.mem_filter.mpr ⟨hpool, hfull⟩
  obtain ⟨a, ha, rfl⟩ := List.mem_map.mp hmem
  have hnodup : (assigned.map (·.pool)).Nodup := by
    rw [hpools]
    exact (hq p hp).canonical.nodup.filter _
  refine ⟨a.leaseId, ?_, fun leaseId hclaims => ?_⟩
  · obtain ⟨hclaim, -⟩ := (hiff ⟨a, p.ticketId⟩).mpr ⟨a, ha, rfl⟩
    exact (reconciled_claims_iff ht).mpr ⟨⟨a, p.ticketId⟩, hclaim, rfl, rfl, rfl⟩
  · obtain ⟨claim, hclaim, hticket, hpool', rfl⟩ := (reconciled_claims_iff ht).mp hclaims
    obtain ⟨b, hb, rfl⟩ := (hiff claim).mp ⟨hclaim, hticket⟩
    have heq : b = a := List.inj_on_of_nodup_map hnodup hb ha hpool'
    rw [heq]

theorem reconciled_hard (ht : engine.TicketInv) {leaseId ticketId : String} {demand : YieldDemand}
    (hdemand : (engine.reconciled now deadline).demandAt leaseId ticketId = some demand) :
    demand.hardReclaim = true ↔ ∀ pool ∈ demand.pools, ∃ state,
      engine.pools.get? pool = some state ∧ state.config.hardPreempt = true := by
  obtain ⟨intent, hintent, hpools, hhard⟩ := reconciled_intent hdemand
  obtain ⟨hall, hset⟩ := intentOf_eq_some hintent
  rw [hhard, hall, hpools, hset, List.all_eq_true]
  have hstates : ∀ claim ∈ wanted (engine.currentClaims now) leaseId ticketId, ∃ state,
      engine.pools.get? claim.pool = some state ∧ claim.hardPreempt = state.config.hardPreempt := by
    intro claim hclaim
    obtain ⟨p, -, -, hok, -⟩ := currentClaims_ok ht (mem_wanted.mp hclaim).1
    obtain ⟨state, hstate, -, heq⟩ := hok.state
    exact ⟨state, hstate, heq⟩
  constructor
  · intro h pool hpool
    obtain ⟨claim, hclaim, rfl⟩ := List.mem_map.mp (List.mem_toFinset.mp hpool)
    obtain ⟨state, hstate, heq⟩ := hstates claim hclaim
    exact ⟨state, hstate, heq.symm.trans (h claim hclaim)⟩
  · intro h claim hclaim
    obtain ⟨state, hstate, heq⟩ := hstates claim hclaim
    obtain ⟨state', hstate', hpreempt⟩ :=
      h claim.pool (List.mem_toFinset.mpr (List.mem_map.mpr ⟨claim, hclaim, rfl⟩))
    rw [hstate] at hstate'
    cases hstate'
    exact heq.trans hpreempt

theorem reconciled_matching (ht : engine.TicketInv) (hh : engine.HolderInv) (hq : engine.QueueOk) :
    (engine.reconciled now deadline).YieldMatching where
  names _ _ _ _ hlease hdemand := reconciled_names ht hh hlease hdemand
  once _ _ _ _ hleft hright := reconciled_once ht hq hleft hright
  whole _ hp _ := reconciled_whole ht hq hp
  hard _ _ _ hdemand := reconciled_hard ht hdemand

end

end LeaseEngine

end Tally.Lease
