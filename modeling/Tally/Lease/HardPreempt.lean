import Tally.Lease.Holders

/-!
# Hard preemption

A lease is preempted only for a hard yield demand whose deadline has passed. The trace remembers
every reconciliation: a hard demand carries the deadline of the reconciliation at which it became
hard, and all reconciliations since then have confirmed it (`DemandInv`). What a reconciliation
demands is read off its plan (`PlanOk`).
-/

namespace Tally.Lease

namespace LeaseEngine

/-! ## What a plan demands -/

/-- What an intent of a yield plan stands for. -/
structure IntentOk (engine : LeaseEngine) (active : List PendingRequest) (leaseId ticketId : String)
    (intent : YieldIntent) : Prop where
  ticket : ∃ p ∈ active, p.ticketId = ticketId ∧ ∀ pool ∈ intent.pools, pool ∈ p.request.pools
  nonempty : intent.pools.Nonempty
  victim : ∃ held, engine.held.get? leaseId = some held ∧
    held.grant.priority.rank < Priority.interrupt.rank
  pools : ∀ pool ∈ intent.pools, ∃ state, engine.pools.get? pool = some state ∧
    leaseId ∈ state.holders ∧ (intent.hardReclaim → state.config.hardPreempt)

def PlanOk (engine : LeaseEngine) (active : List PendingRequest) (plan : YieldPlan) : Prop :=
  ∀ leaseId tickets, plan.desired.get? leaseId = some tickets → ∀ ticketId intent,
    tickets.get? ticketId = some intent → engine.IntentOk active leaseId ticketId intent

/-- What an assignment stands for. -/
structure AssignmentOk (engine : LeaseEngine) (pools : List String) (a : Assignment) : Prop where
  pool : a.pool ∈ pools
  victim : ∃ held, engine.held.get? a.leaseId = some held ∧
    held.grant.priority.rank < Priority.interrupt.rank
  state : ∃ state, engine.pools.get? a.pool = some state ∧ a.leaseId ∈ state.holders ∧
    a.hardPreempt = state.config.hardPreempt

theorem mem_eligible {engine : LeaseEngine} (hkey : ∀ id held, engine.held.get? id = some held →
      held.grant.leaseId = id) {state : RuntimePool} {reserved : Finset String} {held : HeldLease}
    (h : held ∈ engine.eligible state reserved) :
    engine.held.get? held.grant.leaseId = some held ∧ held.grant.leaseId ∈ state.holders ∧
      held.grant.priority.rank < Priority.interrupt.rank := by
  simp only [eligible, List.mem_filter, List.mem_map, decide_eq_true_eq] at h
  obtain ⟨⟨⟨id, held'⟩, ⟨hentry, hholder⟩, rfl⟩, hrank, -⟩ := h
  have hget := engine.held.mem_entries_iff.mp hentry
  have hid := hkey id held' hget
  dsimp only at hid hholder ⊢
  rw [hid]
  exact ⟨hget, hholder, hrank⟩

theorem yieldCandidate_mem {engine : LeaseEngine} {state : RuntimePool} {reserved : Finset String}
    {pool ticketId : String} {held : HeldLease}
    (h : engine.yieldCandidate state reserved pool ticketId = some held) :
    held ∈ engine.eligible state reserved := by
  unfold yieldCandidate at h
  rcases Option.or_eq_some_iff.mp h with h | ⟨-, h⟩
  · exact List.mem_of_mem_filter (List.argmin_mem h)
  · exact List.argmin_mem h

theorem assignments_ok {engine : LeaseEngine} (hkey : ∀ id held, engine.held.get? id = some held →
      held.grant.leaseId = id) {plan : YieldPlan} {ticketId : String} {pools : List String}
    {assigned : List Assignment} (h : engine.assignments plan ticketId pools = some assigned) :
    ∀ a ∈ assigned, engine.AssignmentOk pools a := by
  induction pools generalizing assigned with
  | nil =>
    cases h
    simp
  | cons pool rest ih =>
    have hrest : ∀ {assigned}, engine.assignments plan ticketId rest = some assigned →
        ∀ a ∈ assigned, engine.AssignmentOk (pool :: rest) a := by
      intro assigned h a ha
      obtain ⟨hpool, hvictim, hstate⟩ := ih h a ha
      exact ⟨List.mem_cons_of_mem _ hpool, hvictim, hstate⟩
    rw [assignments] at h
    cases hs : engine.pools.get? pool with
    | none =>
      simp only [hs] at h
      exact hrest h
    | some state =>
      simp only [hs] at h
      split at h
      · exact hrest h
      · cases hc : engine.yieldCandidate state ((plan.reservedByPool.get? pool).getD ∅) pool
            ticketId with
        | none =>
          rw [hc] at h
          cases h
        | some held =>
          simp only [hc, Option.map_eq_some_iff] at h
          obtain ⟨assigned', hassigned, rfl⟩ := h
          obtain ⟨hget, hholder, hrank⟩ := mem_eligible hkey (yieldCandidate_mem hc)
          intro a ha
          rcases List.mem_cons.mp ha with rfl | ha
          · exact ⟨List.mem_cons_self, ⟨held, hget, hrank⟩, state, hs, hholder, rfl⟩
          · exact hrest hassigned a ha

/-- One assignment more keeps a plan justified. -/
theorem PlanOk.demand {engine : LeaseEngine} {active : List PendingRequest} {plan : YieldPlan}
    (h : engine.PlanOk active plan) {p : PendingRequest} (hp : p ∈ active)
    (hunique : ∀ q ∈ active, q.ticketId = p.ticketId → q = p) {a : Assignment}
    (ha : engine.AssignmentOk p.request.pools a) :
    engine.PlanOk active (plan.demand p.ticketId a) := by
  obtain ⟨state, hstate, hholder, hhard⟩ := ha.state
  intro leaseId tickets hl ticketId intent ht
  change (plan.desired.insert a.leaseId _).get? leaseId = _ at hl
  rw [Dict.get?_insert] at hl
  split at hl
  swap
  · exact h leaseId tickets hl ticketId intent ht
  next hlease =>
  subst hlease
  -- the intents of the other tickets on this lease are as before
  have hold : ∀ ticketId intent, ((plan.desired.get? a.leaseId).getD ∅).get? ticketId = some intent →
      engine.IntentOk active a.leaseId ticketId intent := by
    intro ticketId intent hi
    cases hd : plan.desired.get? a.leaseId with
    | none => simp [hd] at hi
    | some tickets => exact h a.leaseId tickets hd ticketId intent (by simpa [hd] using hi)
  cases hl
  rw [Dict.get?_insert] at ht
  split at ht
  swap
  · exact hold ticketId intent ht
  next hticket =>
  subst hticket
  cases hi : ((plan.desired.get? a.leaseId).getD ∅).get? p.ticketId with
  | none =>
    rw [hi] at ht
    cases ht
    refine ⟨⟨p, hp, rfl, ?_⟩, ⟨a.pool, Finset.mem_singleton_self _⟩, ha.victim, ?_⟩
    · intro pool hpool
      rw [Finset.mem_singleton.mp hpool]
      exact ha.pool
    · intro pool hpool
      rw [Finset.mem_singleton.mp hpool]
      exact ⟨state, hstate, hholder, fun hr => hhard ▸ hr⟩
  | some old =>
    rw [hi] at ht
    cases ht
    obtain ⟨⟨q, hq, hqt, hqpools⟩, -, -, hpools⟩ := hold p.ticketId old hi
    obtain rfl := hunique q hq hqt
    refine ⟨⟨q, hp, rfl, ?_⟩, ⟨a.pool, Finset.mem_insert_self ..⟩, ha.victim, ?_⟩
    · intro pool hpool
      rcases Finset.mem_insert.mp hpool with rfl | hpool
      · exact ha.pool
      · exact hqpools pool hpool
    · intro pool hpool
      simp only [Bool.and_eq_true]
      rcases Finset.mem_insert.mp hpool with rfl | hpool
      · exact ⟨state, hstate, hholder, fun hr => hhard ▸ hr.2⟩
      · obtain ⟨state', hs', hh', himp⟩ := hpools pool hpool
        exact ⟨state', hs', hh', fun hr => himp hr.1⟩

theorem PlanOk.foldl_demand {engine : LeaseEngine} {active : List PendingRequest}
    {p : PendingRequest} (hp : p ∈ active)
    (hunique : ∀ q ∈ active, q.ticketId = p.ticketId → q = p) {assigned : List Assignment}
    (hassigned : ∀ a ∈ assigned, engine.AssignmentOk p.request.pools a) {plan : YieldPlan}
    (h : engine.PlanOk active plan) :
    engine.PlanOk active (assigned.foldl (YieldPlan.demand p.ticketId) plan) := by
  induction assigned generalizing plan with
  | nil => exact h
  | cons a rest ih =>
    apply ih
    · intro b hb
      exact hassigned b (List.mem_cons_of_mem _ hb)
    · exact h.demand hp hunique (hassigned a List.mem_cons_self)

theorem planFor_ok {engine : LeaseEngine} (hkey : ∀ id held, engine.held.get? id = some held →
      held.grant.leaseId = id) {active : List PendingRequest}
    (hunique : ∀ p ∈ active, ∀ q ∈ active, q.ticketId = p.ticketId → q = p)
    {rest : List PendingRequest} (hrest : ∀ p ∈ rest, p ∈ active) {plan : YieldPlan}
    (h : engine.PlanOk active plan) : engine.PlanOk active (engine.planFor rest plan) := by
  induction rest generalizing plan with
  | nil => exact h
  | cons p rest ih =>
    have hp := hrest p List.mem_cons_self
    have htail : ∀ q ∈ rest, q ∈ active := fun q hq => hrest q (List.mem_cons_of_mem _ hq)
    rw [planFor]
    cases ha : engine.assignments plan p.ticketId p.request.pools with
    | none => exact ih htail h
    | some assigned =>
      exact ih htail (h.foldl_demand hp (hunique p hp) (assignments_ok hkey ha))

theorem TicketInv.pending_unique {engine : LeaseEngine} (h : engine.TicketInv)
    {p q : PendingRequest} (hp : p ∈ engine.pending) (hq : q ∈ engine.pending)
    (heq : q.ticketId = p.ticketId) : q = p := by
  have hnodup := (List.nodup_append.mp (List.nodup_append.mp h.nodup).1).2.1
  exact List.inj_on_of_nodup_map hnodup hq hp heq

theorem mem_activeInterrupts {engine : LeaseEngine} {now : Time} {p : PendingRequest}
    (h : p ∈ engine.activeInterrupts now) :
    p ∈ engine.pending ∧ p.request.priority = .interrupt := by
  simp only [activeInterrupts, interrupts, List.mem_filter, decide_eq_true_eq] at h
  exact h.1

/-- Every intent of a reconciliation is justified. -/
theorem plan_ok {engine : LeaseEngine} (h : engine.TicketInv) (now : Time) :
    engine.PlanOk (engine.activeInterrupts now)
      (engine.planFor (engine.activeInterrupts now) emptyPlan) := by
  apply planFor_ok h.key
  · intro p hp q hq heq
    exact h.pending_unique (mem_activeInterrupts hp).1 (mem_activeInterrupts hq).1 heq
  · exact fun p hp => hp
  · intro leaseId tickets hl
    cases hl

/-! ## The history of a demand -/

/-- These leases show the ticket demanding the lease with hard reclaim. -/
def HardIn (held : Dict String HeldLease) (leaseId ticketId : String) : Prop :=
  ∃ lease demand, held.get? leaseId = some lease ∧
    lease.yieldDemands.get? ticketId = some demand ∧ demand.hardReclaim

/-- If the entry is a reconciliation, it made or kept the hard demand. -/
def ConfirmsHard (leaseId ticketId : String) : TraceEntry → Prop
  | .reconciled _ held => HardIn held leaseId ticketId
  | _ => True

/-- A reconciliation at `start` demanded the lease for the ticket with hard reclaim, and so has
every reconciliation since. -/
def DemandedSince (engine : LeaseEngine) (leaseId ticketId : String) (start : Time) : Prop :=
  ∃ newer held older, engine.trace = newer ++ .reconciled start held :: older ∧
    HardIn held leaseId ticketId ∧ ∀ entry ∈ newer, ConfirmsHard leaseId ticketId entry

/-- Every hard demand has been confirmed for as long as its deadline says. -/
def DemandInv (engine : LeaseEngine) : Prop :=
  ∀ leaseId lease, engine.held.get? leaseId = some lease → ∀ ticketId demand,
    lease.yieldDemands.get? ticketId = some demand → demand.hardReclaim →
    ∃ start, demand.deadline = start + engine.yieldGrace ∧
      engine.DemandedSince leaseId ticketId start

theorem DemandedSince.cons {a b : LeaseEngine} {leaseId ticketId : String} {start : Time}
    (h : a.DemandedSince leaseId ticketId start) {entry : TraceEntry}
    (htrace : b.trace = entry :: a.trace) (hentry : ConfirmsHard leaseId ticketId entry) :
    b.DemandedSince leaseId ticketId start := by
  obtain ⟨newer, held, older, heq, hhard, hnewer⟩ := h
  refine ⟨entry :: newer, held, older, ?_, hhard, ?_⟩
  · rw [htrace, heq, List.cons_append]
  · intro e he
    rcases List.mem_cons.mp he with rfl | he
    · exact hentry
    · exact hnewer e he

/-- Demands that were there before stay backed when the trace grows by other entries. -/
theorem DemandInv.of_subset {a b : LeaseEngine} (h : a.DemandInv)
    (hgrace : b.yieldGrace = a.yieldGrace)
    (hheld : ∀ leaseId lease, b.held.get? leaseId = some lease → ∀ ticketId demand,
      lease.yieldDemands.get? ticketId = some demand → ∃ old, a.held.get? leaseId = some old ∧
        old.yieldDemands.get? ticketId = some demand)
    (htrace : ∀ leaseId ticketId start, a.DemandedSince leaseId ticketId start →
      b.DemandedSince leaseId ticketId start) : b.DemandInv := by
  intro leaseId lease hl ticketId demand hd hhard
  obtain ⟨old, hold, hdemand⟩ := hheld leaseId lease hl ticketId demand hd
  obtain ⟨start, hdeadline, hsince⟩ := h leaseId old hold ticketId demand hdemand hhard
  exact ⟨start, by rw [hgrace]; exact hdeadline, htrace _ _ _ hsince⟩

/-- A demand after a reconciliation comes from an intent of the plan. -/
theorem reconciled_demand {engine : LeaseEngine} {now deadline : Time} {leaseId ticketId : String}
    {lease : HeldLease} {demand : YieldDemand}
    (hl : (engine.reconciled now deadline).held.get? leaseId = some lease)
    (hd : lease.yieldDemands.get? ticketId = some demand) :
    ∃ old tickets intent, engine.held.get? leaseId = some old ∧ lease.grant = old.grant ∧
      (engine.planFor (engine.activeInterrupts now) emptyPlan).desired.get? leaseId = some tickets ∧
      tickets.get? ticketId = some intent ∧
      demand = updateDemand deadline intent (old.yieldDemands.get? ticketId) := by
  change (engine.held.mapVals _).get? leaseId = _ at hl
  rw [Dict.get?_mapVals, Option.map_eq_some_iff] at hl
  obtain ⟨old, hold, rfl⟩ := hl
  simp only [updateHeld] at hd
  cases ht : (engine.planFor (engine.activeInterrupts now) emptyPlan).desired.get? leaseId with
  | none =>
    rw [ht] at hd
    cases hd
  | some tickets =>
    simp only [ht, Dict.get?_mapVals, Option.map_eq_some_iff] at hd
    obtain ⟨intent, hintent, rfl⟩ := hd
    exact ⟨old, tickets, intent, hold, rfl, rfl, hintent, rfl⟩

/-- A demand that is hard after an update either starts its grace now or was hard before. -/
theorem updateDemand_hard {deadline : Time} {intent : YieldIntent} {old : Option YieldDemand}
    (h : (updateDemand deadline intent old).hardReclaim) :
    (updateDemand deadline intent old).deadline = deadline ∨
      ∃ demand, old = some demand ∧ demand.hardReclaim ∧
        (updateDemand deadline intent old).deadline = demand.deadline := by
  cases old with
  | none => exact .inl rfl
  | some demand =>
    have hintent : intent.hardReclaim := h
    cases hd : demand.hardReclaim with
    | false => exact .inl (by simp [updateDemand, hintent, hd])
    | true => exact .inr ⟨demand, rfl, hd, by simp [updateDemand, hd]⟩

theorem DemandInv.reconciled {engine : LeaseEngine} (h : engine.DemandInv) {now deadline : Time}
    (hdeadline : engine.yieldDeadline now = .ok deadline) :
    (engine.reconciled now deadline).DemandInv := by
  have hd : deadline = now + engine.yieldGrace := by
    unfold yieldDeadline addDuration at hdeadline
    split at hdeadline
    · split at hdeadline <;> cases hdeadline
      rfl
    · cases hdeadline
  intro leaseId lease hl ticketId demand hdemand hhard
  have hnow : HardIn (engine.reconciled now deadline).held leaseId ticketId :=
    ⟨lease, demand, hl, hdemand, hhard⟩
  obtain ⟨old, tickets, intent, hold, -, -, -, rfl⟩ := reconciled_demand hl hdemand
  rcases updateDemand_hard hhard with heq | ⟨before, hbefore, hwas, heq⟩
  · exact ⟨now, heq.trans hd, [], _, engine.trace, rfl, hnow, by simp⟩
  · obtain ⟨start, hstart, hsince⟩ := h leaseId old hold ticketId before hbefore hwas
    exact ⟨start, heq.trans hstart, hsince.cons rfl hnow⟩

/-- A fresh lease carries no demands. -/
theorem DemandInv.granted {engine : LeaseEngine} (h : engine.DemandInv) {ticketId : String}
    {request : LeaseRequest} {now : Time} : (engine.granted ticketId request now).DemandInv := by
  have hgrace : (engine.granted ticketId request now).yieldGrace = engine.yieldGrace := rfl
  apply h.of_subset hgrace
  · intro leaseId lease hl ticket demand hd
    change (engine.held.insert ticketId _).get? leaseId = _ at hl
    rw [Dict.get?_insert] at hl
    split at hl
    · cases hl
      cases hd
    · exact ⟨lease, hl, hd⟩
  · intro leaseId ticket start hsince
    exact hsince.cons rfl trivial

end LeaseEngine

open LeaseEngine

def hardPools : Dict String PoolConfig :=
  Dict.insert ∅ "gpu" { resource := some .slot, hardPreempt := true }

def hardEngine : LeaseEngine :=
  { epoch := 1, yieldGrace := 1000, agingThreshold := 1000000, events := none
    pools := Dict.insert ∅ "gpu" (RuntimePool.new { resource := some .slot, hardPreempt := true }) }

def hardRequest (jobId : String) (priority : Priority) : LeaseRequest :=
  { jobId, unit := jobId, pools := ["gpu"], priority }

def hardOps : List Op :=
  [.admitAt (hardRequest "batch" .low) 0, .admitAt (hardRequest "urgent" .interrupt) 10]

def hardVictim : LeaseGrant :=
  { leaseId := "lease-1-1", jobId := "batch", unit := "batch", pools := ["gpu"], priority := .low,
    epoch := 1, grantedAt := 0, admissionKey := none, consumptionEstimate := none }

def hardOutcome : TickOutcome :=
  { preempted := [hardVictim]
    promoted := [{ hardVictim with
      leaseId := "lease-1-2", jobId := "urgent", unit := "urgent", priority := .interrupt }] }

end Tally.Lease
