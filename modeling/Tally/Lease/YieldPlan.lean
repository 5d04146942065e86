import Tally.Lease.HardPreempt

/-!
# What a yield plan claims

A reconciliation goes through the interrupts and assigns to each a victim in every full pool of its
request, or nothing at all. The assignments of all of them, the claims, determine the plan (`Demands`);
no two of them are for one lease in one pool, and those of one interrupt are for its full pools.
-/

namespace Tally.Lease

namespace LeaseEngine

/-- An assignment with the ticket that it is for. -/
structure Claim extends Assignment where
  ticketId : String

/-! ## Claims determine a plan -/

def YieldPlan.intent (plan : YieldPlan) (leaseId ticketId : String) : Option YieldIntent :=
  (plan.desired.get? leaseId).bind (·.get? ticketId)

def YieldPlan.reserved (plan : YieldPlan) (pool : String) : Finset String :=
  (plan.reservedByPool.get? pool).getD ∅

/-- The claims of a ticket on a lease. -/
def wanted (claims : List Claim) (leaseId ticketId : String) : List Claim :=
  claims.filter fun claim => decide (claim.leaseId = leaseId ∧ claim.ticketId = ticketId)

/-- What the claims of a ticket on a lease come to. -/
def intentOf : List Claim → Option YieldIntent
  | [] => none
  | claim :: more => some {
      hardReclaim := (claim :: more).all (·.hardPreempt)
      pools := ((claim :: more).map (·.pool)).toFinset }

/-- A plan has the intents and the reservations of these claims. -/
structure Demands (claims : List Claim) (plan : YieldPlan) : Prop where
  intent : ∀ leaseId ticketId, plan.intent leaseId ticketId = intentOf (wanted claims leaseId ticketId)
  reserved : ∀ pool leaseId, leaseId ∈ plan.reserved pool ↔
    ∃ claim ∈ claims, claim.pool = pool ∧ claim.leaseId = leaseId

theorem mem_wanted {claims : List Claim} {leaseId ticketId : String} {claim : Claim} :
    claim ∈ wanted claims leaseId ticketId ↔
      claim ∈ claims ∧ claim.leaseId = leaseId ∧ claim.ticketId = ticketId := by
  rw [wanted, List.mem_filter, decide_eq_true_iff]

theorem wanted_append (claims : List Claim) (claim : Claim) (leaseId ticketId : String) :
    wanted (claims ++ [claim]) leaseId ticketId = wanted claims leaseId ticketId ++
      if claim.leaseId = leaseId ∧ claim.ticketId = ticketId then [claim] else [] := by
  rw [wanted, List.filter_append, List.filter_singleton]
  by_cases h : claim.leaseId = leaseId ∧ claim.ticketId = ticketId
  · rw [if_pos h, decide_eq_true h]
    rfl
  · rw [if_neg h, decide_eq_false h]
    rfl

theorem intentOf_eq_some {claims : List Claim} {intent : YieldIntent} (h : intentOf claims = some intent) :
    intent.hardReclaim = claims.all (·.hardPreempt) ∧ intent.pools = (claims.map (·.pool)).toFinset := by
  cases claims with
  | nil => cases h
  | cons claim more =>
    cases h
    exact ⟨rfl, rfl⟩

theorem intentOf_eq_none {claims : List Claim} (h : intentOf claims = none) : claims = [] := by
  cases claims with
  | nil => rfl
  | cons claim more => cases h

/-- One claim more on the same lease for the same ticket. -/
theorem intentOf_append (claims : List Claim) (claim : Claim) :
    intentOf (claims ++ [claim]) = some (match intentOf claims with
      | some intent =>
        { hardReclaim := intent.hardReclaim && claim.hardPreempt, pools := insert claim.pool intent.pools }
      | none => { hardReclaim := claim.hardPreempt, pools := {claim.pool} }) := by
  cases claims with
  | nil => simp [intentOf]
  | cons first more =>
    simp only [intentOf, List.cons_append]
    rw [← List.cons_append, List.all_append, List.map_append, List.toFinset_append]
    simp [Finset.insert_comm]

theorem demands_nil : Demands [] emptyPlan := by
  constructor
  · intro leaseId ticketId
    rfl
  · intro pool leaseId
    exact ⟨fun h => absurd h (Finset.notMem_empty _), fun ⟨_, h, _⟩ => nomatch h⟩

/-- What `YieldPlan.demand` adds. -/
theorem YieldPlan.intent_demand (plan : YieldPlan) (ticketId : String) (a : Assignment)
    (leaseId ticket : String) :
    (plan.demand ticketId a).intent leaseId ticket =
      if leaseId = a.leaseId ∧ ticket = ticketId then some (match plan.intent leaseId ticket with
        | some intent =>
          { hardReclaim := intent.hardReclaim && a.hardPreempt, pools := insert a.pool intent.pools }
        | none => { hardReclaim := a.hardPreempt, pools := {a.pool} })
      else plan.intent leaseId ticket := by
  have hold : ∀ ticket, ((plan.desired.get? a.leaseId).getD ∅).get? ticket =
      plan.intent a.leaseId ticket := by
    intro ticket
    rw [intent]
    cases plan.desired.get? a.leaseId <;> rfl
  rw [intent, demand]
  dsimp only
  rw [Dict.get?_insert]
  by_cases hlease : leaseId = a.leaseId
  · subst hlease
    rw [if_pos rfl, Option.bind_some, Dict.get?_insert]
    by_cases hticket : ticket = ticketId
    · subst hticket
      rw [if_pos rfl, if_pos ⟨rfl, rfl⟩]
      cases hplan : plan.intent a.leaseId ticket <;> simp only [hold, hplan]
    · rw [if_neg hticket, if_neg fun h => hticket h.2, hold]
  · rw [if_neg hlease, if_neg fun h => hlease h.1]
    rfl

theorem YieldPlan.mem_reserved_demand {plan : YieldPlan} {ticketId : String} {a : Assignment}
    {pool leaseId : String} : leaseId ∈ (plan.demand ticketId a).reserved pool ↔
      (pool = a.pool ∧ leaseId = a.leaseId) ∨ leaseId ∈ plan.reserved pool := by
  rw [reserved, demand]
  dsimp only
  rw [Dict.get?_insert]
  by_cases hpool : pool = a.pool
  · subst hpool
    rw [if_pos rfl, Option.getD_some, Finset.mem_insert]
    exact or_congr_left (and_iff_right rfl).symm
  · rw [if_neg hpool]
    exact ⟨.inr, fun h => h.resolve_left fun h => hpool h.1⟩

theorem Demands.demand {claims : List Claim} {plan : YieldPlan} (h : Demands claims plan)
    (a : Assignment) (ticketId : String) :
    Demands (claims ++ [⟨a, ticketId⟩]) (plan.demand ticketId a) := by
  constructor
  · intro leaseId ticket
    rw [YieldPlan.intent_demand, h.intent, wanted_append]
    by_cases hmatch : leaseId = a.leaseId ∧ ticket = ticketId
    · obtain ⟨rfl, rfl⟩ := hmatch
      rw [if_pos ⟨rfl, rfl⟩, if_pos ⟨rfl, rfl⟩, intentOf_append]
    · have hne : ¬ (a.leaseId = leaseId ∧ ticketId = ticket) := fun heq => hmatch ⟨heq.1.symm, heq.2.symm⟩
      rw [if_neg hmatch, if_neg hne, List.append_nil]
  · intro pool leaseId
    rw [YieldPlan.mem_reserved_demand, h.reserved]
    constructor
    · rintro (⟨rfl, rfl⟩ | ⟨claim, hclaim, heq⟩)
      · exact ⟨⟨a, ticketId⟩, List.mem_append_right _ (List.mem_singleton_self _), rfl, rfl⟩
      · exact ⟨claim, List.mem_append_left _ hclaim, heq⟩
    · rintro ⟨claim, hclaim, heq⟩
      rcases List.mem_append.mp hclaim with hclaim | hclaim
      · exact .inr ⟨claim, hclaim, heq⟩
      · rw [List.mem_singleton.mp hclaim] at heq
        exact .inl ⟨heq.1.symm, heq.2.symm⟩

theorem Demands.foldl_demand {claims : List Claim} {plan : YieldPlan} (h : Demands claims plan)
    (assigned : List Assignment) (ticketId : String) :
    Demands (claims ++ assigned.map (Claim.mk · ticketId))
      (assigned.foldl (YieldPlan.demand ticketId) plan) := by
  induction assigned generalizing claims plan with
  | nil => rwa [List.map_nil, List.append_nil]
  | cons a rest ih =>
    have hrest := ih (h.demand a ticketId)
    rwa [List.append_assoc, List.singleton_append] at hrest

section

variable (engine : LeaseEngine)

/-- The claims of the interrupts, in the order in which they are planned. -/
def claimed : List PendingRequest → YieldPlan → List Claim
  | [], _ => []
  | p :: rest, plan =>
    match engine.assignments plan p.ticketId p.request.pools with
    | none => claimed rest plan
    | some assigned =>
      assigned.map (Claim.mk · p.ticketId) ++
        claimed rest (assigned.foldl (YieldPlan.demand p.ticketId) plan)

variable {engine}

theorem demands_planFor {claims : List Claim} {plan : YieldPlan} (h : Demands claims plan)
    (pending : List PendingRequest) :
    Demands (claims ++ engine.claimed pending plan) (engine.planFor pending plan) := by
  induction pending generalizing claims plan with
  | nil => rwa [claimed, List.append_nil]
  | cons p rest ih =>
    rw [claimed, planFor]
    cases engine.assignments plan p.ticketId p.request.pools with
    | none => exact ih h
    | some assigned =>
      rw [← List.append_assoc]
      exact ih (h.foldl_demand assigned p.ticketId)

/-! ## The assignments of one interrupt -/

variable (engine) in
/-- A co-residency pool with no room. -/
def isFull (pool : String) : Bool :=
  (engine.pools.get? pool).any fun state =>
    state.config.predicate.isCoResidency && decide (state.config.capacity ≤ state.holders.card)

variable (engine) in
/-- The victim in a pool, if some holder is eligible. -/
def victim (plan : YieldPlan) (ticketId pool : String) : Option Assignment :=
  (engine.pools.get? pool).bind fun state =>
    (engine.yieldCandidate state (plan.reserved pool) pool ticketId).map fun held =>
      { pool, leaseId := held.grant.leaseId, hardPreempt := state.config.hardPreempt }

theorem isFull_iff {pool : String} : engine.isFull pool = true ↔ ∃ state,
    engine.pools.get? pool = some state ∧ state.config.predicate.isCoResidency = true ∧
      state.config.capacity ≤ state.holders.card := by
  rw [isFull, Option.any_eq_true]
  simp only [Bool.and_eq_true, decide_eq_true_eq]

theorem assignments_cons (plan : YieldPlan) (ticketId pool : String) (rest : List String) :
    engine.assignments plan ticketId (pool :: rest) =
      if engine.isFull pool then
        (engine.victim plan ticketId pool).bind fun a =>
          (engine.assignments plan ticketId rest).map (a :: ·)
      else engine.assignments plan ticketId rest := by
  rw [assignments, isFull, victim]
  cases engine.pools.get? pool with
  | none => rfl
  | some state =>
    simp only [Option.any_some, Option.bind_some]
    by_cases hfull : state.config.predicate.isCoResidency = true ∧
        state.config.capacity ≤ state.holders.card
    · have hroom : ¬ state.holders.card < state.config.capacity := Nat.not_lt.mpr hfull.2
      simp only [hfull.1, hfull.2, hroom, Bool.not_true, decide_false, Bool.or_self, Bool.false_eq_true,
        if_false, decide_true, Bool.and_self, if_true]
      rw [YieldPlan.reserved]
      cases engine.yieldCandidate state ((plan.reservedByPool.get? pool).getD ∅) pool ticketId <;> rfl
    · have hskip : (!state.config.predicate.isCoResidency ||
          decide (state.holders.card < state.config.capacity)) = true := by
        rw [Bool.or_eq_true, Bool.not_eq_true', decide_eq_true_iff]
        rcases Bool.eq_false_or_eq_true state.config.predicate.isCoResidency with htrue | hfalse
        · exact .inr (Nat.lt_of_not_le fun hle => hfull ⟨htrue, hle⟩)
        · exact .inl hfalse
      have hnot : ¬ (state.config.predicate.isCoResidency &&
          decide (state.config.capacity ≤ state.holders.card)) = true := by
        rwa [Bool.and_eq_true, decide_eq_true_iff]
      rw [if_pos hskip, if_neg hnot]

theorem not_reserved_of_mem_eligible {state : RuntimePool} {reserved : Finset String} {held : HeldLease}
    (h : held ∈ engine.eligible state reserved) : held.grant.leaseId ∉ reserved := by
  rw [eligible, List.mem_filter, decide_eq_true_iff] at h
  exact h.2.2

theorem victim_eq_some {plan : YieldPlan} {ticketId pool : String} {a : Assignment}
    (h : engine.victim plan ticketId pool = some a) : ∃ state held,
      engine.pools.get? pool = some state ∧
        engine.yieldCandidate state (plan.reserved pool) pool ticketId = some held ∧
        a = { pool, leaseId := held.grant.leaseId, hardPreempt := state.config.hardPreempt } := by
  obtain ⟨state, hstate, h⟩ := Option.bind_eq_some_iff.mp h
  obtain ⟨held, hheld, rfl⟩ := Option.map_eq_some_iff.mp h
  exact ⟨state, held, hstate, hheld, rfl⟩

section

variable {plan : YieldPlan} {ticketId : String} {pools : List String} {assigned : List Assignment}

/-- There is an assignment for each full pool. -/
theorem assignments_pools (h : engine.assignments plan ticketId pools = some assigned) :
    assigned.map (·.pool) = pools.filter engine.isFull := by
  induction pools generalizing assigned with
  | nil =>
    cases h
    rfl
  | cons pool rest ih =>
    rw [assignments_cons] at h
    split at h
    · next hfull =>
      obtain ⟨a, ha, h⟩ := Option.bind_eq_some_iff.mp h
      obtain ⟨more, hmore, rfl⟩ := Option.map_eq_some_iff.mp h
      obtain ⟨state, held, -, -, rfl⟩ := victim_eq_some ha
      rw [List.filter_cons_of_pos hfull, List.map_cons, ih hmore]
    · next hfull => rw [List.filter_cons_of_neg hfull, ih h]

theorem assignments_unreserved (h : engine.assignments plan ticketId pools = some assigned) :
    ∀ a ∈ assigned, a.leaseId ∉ plan.reserved a.pool := by
  induction pools generalizing assigned with
  | nil =>
    cases h
    intro a ha
    cases ha
  | cons pool rest ih =>
    rw [assignments_cons] at h
    split at h
    · obtain ⟨a, ha, h⟩ := Option.bind_eq_some_iff.mp h
      obtain ⟨more, hmore, rfl⟩ := Option.map_eq_some_iff.mp h
      obtain ⟨state, held, -, hheld, rfl⟩ := victim_eq_some ha
      rw [List.forall_mem_cons]
      exact ⟨not_reserved_of_mem_eligible (yieldCandidate_mem hheld), ih hmore⟩
    · exact ih h

end

/-! ## The claims of a plan -/

/-- What a claim takes up. -/
def Claim.place (claim : Claim) : String × String := (claim.pool, claim.leaseId)

section

variable {plan : YieldPlan} {pending : List PendingRequest}

theorem mem_claimed {claim : Claim} (h : claim ∈ engine.claimed pending plan) :
    ∃ p ∈ pending, ∃ before assigned,
      engine.assignments before p.ticketId p.request.pools = some assigned ∧
        claim.toAssignment ∈ assigned ∧ claim.ticketId = p.ticketId := by
  induction pending generalizing plan with
  | nil => cases h
  | cons p rest ih =>
    rw [claimed] at h
    cases hassigned : engine.assignments plan p.ticketId p.request.pools with
    | none =>
      rw [hassigned] at h
      obtain ⟨q, hq, hclaim⟩ := ih h
      exact ⟨q, List.mem_cons_of_mem _ hq, hclaim⟩
    | some assigned =>
      rw [hassigned] at h
      rcases List.mem_append.mp h with h | h
      · obtain ⟨a, ha, rfl⟩ := List.mem_map.mp h
        exact ⟨p, List.mem_cons_self, plan, assigned, hassigned, ha, rfl⟩
      · obtain ⟨q, hq, hclaim⟩ := ih h
        exact ⟨q, List.mem_cons_of_mem _ hq, hclaim⟩

/-- No two claims are for one lease in one pool. -/
theorem claimed_nodup {claims : List Claim} (h : Demands claims plan)
    (hnodup : (claims.map Claim.place).Nodup) (hpools : ∀ p ∈ pending, p.request.pools.Nodup) :
    ((claims ++ engine.claimed pending plan).map Claim.place).Nodup := by
  induction pending generalizing claims plan with
  | nil => rwa [claimed, List.append_nil]
  | cons p rest ih =>
    have hrest : ∀ q ∈ rest, q.request.pools.Nodup := fun q hq => hpools q (List.mem_cons_of_mem _ hq)
    rw [claimed]
    cases hassigned : engine.assignments plan p.ticketId p.request.pools with
    | none => exact ih h hnodup hrest
    | some assigned =>
      rw [← List.append_assoc]
      refine ih (h.foldl_demand assigned p.ticketId) ?_ hrest
      rw [List.map_append, List.map_map]
      refine List.Nodup.append hnodup ?_ ?_
      · refine List.Nodup.of_map Prod.fst ?_
        rw [List.map_map]
        have hfull : (assigned.map (·.pool)).Nodup := by
          rw [assignments_pools hassigned]
          exact (hpools p List.mem_cons_self).filter _
        exact hfull
      · intro place hold hnew
        obtain ⟨claim, hclaim, rfl⟩ := List.mem_map.mp hold
        obtain ⟨a, ha, heq⟩ := List.mem_map.mp hnew
        obtain ⟨hpool, hlease⟩ := Prod.ext_iff.mp heq
        exact assignments_unreserved hassigned a ha
          ((h.reserved a.pool a.leaseId).mpr ⟨claim, hclaim, hpool.symm, hlease.symm⟩)

/-- The claims of one interrupt are all of its assignments, or there are none. -/
theorem claimed_whole (htickets : (pending.map (·.ticketId)).Nodup) {p : PendingRequest}
    (hp : p ∈ pending) :
    (∀ claim ∈ engine.claimed pending plan, claim.ticketId ≠ p.ticketId) ∨
      ∃ before assigned, engine.assignments before p.ticketId p.request.pools = some assigned ∧
        ∀ claim, claim ∈ engine.claimed pending plan ∧ claim.ticketId = p.ticketId ↔
          ∃ a ∈ assigned, claim = ⟨a, p.ticketId⟩ := by
  induction pending generalizing plan with
  | nil => cases hp
  | cons q rest ih =>
    rw [List.map_cons, List.nodup_cons] at htickets
    obtain ⟨hfresh, hrestTickets⟩ := htickets
    -- the claims of the others are not for the ticket at the head
    have hother : ∀ {plan} {claim : Claim}, claim ∈ engine.claimed rest plan →
        claim.ticketId ≠ q.ticketId := by
      intro plan claim hclaim heq
      obtain ⟨r, hr, -, -, -, -, hticket⟩ := mem_claimed hclaim
      exact hfresh (List.mem_map.mpr ⟨r, hr, hticket.symm.trans heq⟩)
    rw [claimed]
    rcases List.mem_cons.mp hp with rfl | hp
    · cases hassigned : engine.assignments plan p.ticketId p.request.pools with
      | none => exact .inl fun claim hclaim => hother hclaim
      | some assigned =>
        refine .inr ⟨plan, assigned, hassigned, fun claim => ⟨fun ⟨hclaim, hticket⟩ => ?_, ?_⟩⟩
        · rcases List.mem_append.mp hclaim with hclaim | hclaim
          · obtain ⟨a, ha, rfl⟩ := List.mem_map.mp hclaim
            exact ⟨a, ha, rfl⟩
          · exact absurd hticket (hother hclaim)
        · rintro ⟨a, ha, rfl⟩
          exact ⟨List.mem_append_left _ (List.mem_map.mpr ⟨a, ha, rfl⟩), rfl⟩
    · have hne : q.ticketId ≠ p.ticketId := fun heq => hfresh (List.mem_map.mpr ⟨p, hp, heq.symm⟩)
      cases hassigned : engine.assignments plan q.ticketId q.request.pools with
      | none => exact ih hrestTickets hp
      | some assigned =>
        have hhead : ∀ claim ∈ assigned.map (Claim.mk · q.ticketId), claim.ticketId ≠ p.ticketId := by
          intro claim hclaim
          obtain ⟨a, -, rfl⟩ := List.mem_map.mp hclaim
          exact hne
        rcases ih hrestTickets hp with hnone | ⟨before, own, hown, hiff⟩
        · left
          intro claim hclaim
          rcases List.mem_append.mp hclaim with hclaim | hclaim
          · exact hhead claim hclaim
          · exact hnone claim hclaim
        · refine .inr ⟨before, own, hown, fun claim => ?_⟩
          rw [← hiff claim]
          constructor
          · rintro ⟨hclaim, hticket⟩
            rcases List.mem_append.mp hclaim with hclaim | hclaim
            · exact absurd hticket (hhead claim hclaim)
            · exact ⟨hclaim, hticket⟩
          · rintro ⟨hclaim, hticket⟩
            exact ⟨List.mem_append_right _ hclaim, hticket⟩

end

end

end LeaseEngine

end Tally.Lease
