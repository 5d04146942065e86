import Tally.Lease.HardPreempt
import Tally.Lease.Braid

/-!
# Fairness between scheduling groups

One co-residency pool, requests of one priority, none of them aged. While the oldest pending request
of a group waits, how many requests of another group are granted? The queue is braided when a
request is queued and not again when it shrinks, so the bound of one grant holds only as long as no
group that has been served during the wait is sorted ahead once more.
-/

namespace Tally.Lease

/-- The entry grants a request of the group. -/
def TraceEntry.grantsGroup (group : LeaseSchedulingGroup) : TraceEntry → Bool
  | .granted _ _ request _ _ => decide (request.schedulingGroup = group)
  | _ => false

namespace LeaseEngine

/-- How many requests of a group the engine has granted. -/
def grantsOf (engine : LeaseEngine) (group : LeaseSchedulingGroup) : Nat :=
  engine.trace.countP (TraceEntry.grantsGroup group)

/-- If `b` is the oldest pending request of its group and still waits at the end, then no other group
has been granted two requests in between. -/
def GroupFair (start final : LeaseEngine) (b : PendingRequest) : Prop :=
  b ∈ start.pending → Oldest start.pending b → b.ticketId ∈ final.pendingIds →
    ∀ group ≠ b.request.schedulingGroup, final.grantsOf group ≤ start.grantsOf group + 1

/-- No pending request has waited longer than the aging threshold. -/
def Young (engine : LeaseEngine) (now : Time) : Prop :=
  ∀ q ∈ engine.pending, now - q.admittedAt ≤ engine.agingThreshold

/-- An admission asks for this pool only, at this priority. -/
def Uniform (pool : String) (priority : Priority) : Op → Prop
  | .admitAt request _ => request.pools = [pool] ∧ request.priority = priority
  | _ => True

/-- The setting: one pool, one priority, no aging. -/
def Plain (pool : String) (priority : Priority) (engine : LeaseEngine) (op : Op) : Prop :=
  Uniform pool priority op ∧ engine.Young op.time

instance (pool : String) (priority : Priority) (op : Op) : Decidable (Uniform pool priority op) :=
  match op with
  | .admitAt request _ =>
    inferInstanceAs (Decidable (request.pools = [pool] ∧ request.priority = priority))
  | .releaseAt .. | .cancelPendingAt .. | .planTick _ | .commitPreemptions .. | .tick _
  | .budgetUsedAt .. | .windowResetAt .. | .status .. => .isTrue trivial

instance (engine : LeaseEngine) (now : Time) : Decidable (engine.Young now) :=
  inferInstanceAs (Decidable (∀ q ∈ engine.pending, now - q.admittedAt ≤ engine.agingThreshold))

instance (pool : String) (priority : Priority) (engine : LeaseEngine) (op : Op) :
    Decidable (Plain pool priority engine op) :=
  inferInstanceAs (Decidable (_ ∧ _))

/-- No request is accepted into the queue while a group that has been served since `start` has a
pending request older than `b`. -/
def Undisturbed (start : LeaseEngine) (b : PendingRequest) (engine : LeaseEngine) (op : Op) : Prop :=
  ∀ request now, op = .admitAt request now → engine.validateAdmission request = .ok () →
    ∀ group ≠ b.request.schedulingGroup, start.grantsOf group < engine.grantsOf group →
      ∀ q ∈ engine.pending, q.request.schedulingGroup = group → b.sequence < q.sequence

/-! ## The plain setting -/

/-- The pool could take one more holder. -/
def Room (engine : LeaseEngine) (pool : String) : Prop :=
  ∃ state, engine.pools.get? pool = some state ∧ state.holders.card < state.config.capacity

structure PlainInv (pool : String) (priority : Priority) (engine : LeaseEngine) : Prop where
  tickets : engine.TicketInv
  coResident : ∃ state, engine.pools.get? pool = some state ∧ state.config.predicate = .coResidency
  pending : ∀ q ∈ engine.pending, q.request.pools = [pool] ∧ q.request.priority = priority ∧
    q.effectiveRank = priority.rank
  held : ∀ id held, engine.held.get? id = some held → held.grant.priority = priority ∧
    ∀ ticketId, held.yieldDemands.get? ticketId = none
  log : Reliable engine.events

/-- A request waits only while the pool is full. -/
def Full (pool : String) (engine : LeaseEngine) : Prop := engine.pending ≠ [] → ¬ engine.Room pool

section Plain

variable {pool : String} {priority : Priority} {engine : LeaseEngine}

theorem PlainInv.fits_iff (h : engine.PlainInv pool priority) {request : LeaseRequest}
    (hpools : request.pools = [pool]) (now : Time) :
    engine.Fits request now ↔ engine.Room pool := by
  obtain ⟨state, hs, hco⟩ := h.coResident
  simp only [Fits, Room, hpools, List.mem_singleton, forall_eq, hs, Option.some.injEq,
    exists_eq_left', RuntimePool.takes_coResidency hco]

theorem PlainInv.not_stuck (h : engine.PlainInv pool priority) {request : LeaseRequest}
    (hpools : request.pools = [pool]) (now : Time) : ¬ engine.Stuck request now := by
  obtain ⟨state, hs, hco⟩ := h.coResident
  rintro ⟨q, hq, hstuck⟩
  rw [hpools, List.mem_singleton] at hq
  subst hq
  rcases hstuck with hnone | ⟨state', error, hs', herror⟩
  · rw [hs] at hnone
    cases hnone
  · rw [hs] at hs'
    cases hs'
    simp [poolAllows, hco] at herror

theorem PlainInv.rank_current (h : engine.PlainInv pool priority) {now : Time}
    (hyoung : engine.Young now) {q : PendingRequest} (hq : q ∈ engine.pending) :
    q.effectiveRank = effectiveRankAt q now engine.agingThreshold := by
  obtain ⟨-, hpriority, hrank⟩ := h.pending q hq
  have hage : ¬ now - q.admittedAt > engine.agingThreshold := not_lt.mpr (hyoung q hq)
  rw [effectiveRankAt, if_neg hage, hrank, hpriority]

theorem PlainInv.refresh (h : engine.PlainInv pool priority) {now : Time}
    (hyoung : engine.Young now) : engine.refreshAgedOrder now = engine := by
  unfold refreshAgedOrder
  rw [if_neg]
  simp only [List.any_eq_true, not_exists, not_and, decide_eq_true_eq, not_not]
  exact fun q hq => h.rank_current hyoung hq

/-- With a single priority nobody is asked to yield. -/
theorem PlainInv.no_demand (h : engine.PlainInv pool priority) {now deadline : Time}
    {leaseId : String} {held : HeldLease}
    (hl : (engine.reconciled now deadline).held.get? leaseId = some held) (ticketId : String) :
    held.yieldDemands.get? ticketId = none := by
  cases hd : held.yieldDemands.get? ticketId with
  | none => rfl
  | some demand =>
    obtain ⟨old, tickets, intent, hold, -, htickets, hintent, -⟩ := reconciled_demand hl hd
    obtain ⟨⟨p, hp, -⟩, -, ⟨victim, hvictim, hrank⟩, -⟩ :=
      plan_ok h.tickets now leaseId tickets htickets ticketId intent hintent
    obtain ⟨hpending, hinterrupt⟩ := mem_activeInterrupts hp
    rw [(h.held leaseId victim hvictim).1, ← (h.pending p hpending).2.1, hinterrupt] at hrank
    exact absurd hrank (lt_irrefl _)

theorem PlainInv.logged (h : engine.PlainInv pool priority) (ticketId : String)
    (request : LeaseRequest) (now : Time) : engine.Logged ticketId request now :=
  (h.log.append _).1

theorem room_pruneOf {now : Time} {a b : LeaseEngine} (hp : PruneOf now a b) :
    b.Room pool ↔ a.Room pool := by
  constructor
  · rintro ⟨state', hs', hroom⟩
    obtain ⟨state, hs, rfl | rfl⟩ := hp.get?_inv hs'
    · exact ⟨_, hs, hroom⟩
    · exact ⟨_, hs, by simpa using hroom⟩
  · rintro ⟨state, hs, hroom⟩
    obtain ⟨state', hs', rfl | rfl⟩ := hp.get?_some hs
    · exact ⟨_, hs', hroom⟩
    · exact ⟨_, hs', by simpa using hroom⟩

/-- What the invariant needs of a move besides the tickets. -/
theorem PlainInv.of_frame {a b : LeaseEngine} (h : a.PlainInv pool priority) (ht : b.TicketInv)
    (hpools : ∀ state, a.pools.get? pool = some state → ∃ state',
      b.pools.get? pool = some state' ∧ state'.config = state.config)
    (hpending : ∀ p ∈ b.pending, p ∈ a.pending)
    (hheld : ∀ id held, b.held.get? id = some held → ∃ old, a.held.get? id = some old ∧
      held.grant = old.grant ∧ ∀ t, held.yieldDemands.get? t = none)
    (hlog : Reliable b.events) : b.PlainInv pool priority := by
  obtain ⟨state, hs, hco⟩ := h.coResident
  obtain ⟨state', hs', hconfig⟩ := hpools state hs
  refine ⟨ht, ⟨state', hs', by rw [hconfig]; exact hco⟩, ?_, ?_, hlog⟩
  · intro q hq
    exact h.pending q (hpending q hq)
  · intro id held hid
    obtain ⟨old, hold, hgrant, hdemands⟩ := hheld id held hid
    exact ⟨by rw [hgrant]; exact (h.held id old hold).1, hdemands⟩

theorem PlainInv.granted (h : engine.PlainInv pool priority) {ticketId : String}
    {request : LeaseRequest} {now : Time} (hpriority : request.priority = priority)
    {final : LeaseEngine} (ht : final.TicketInv)
    (hpools : final.pools = (engine.granted ticketId request now).pools)
    (hheld : final.held = (engine.granted ticketId request now).held)
    (hevents : final.events = (engine.granted ticketId request now).events)
    (hpending : ∀ p ∈ final.pending, p ∈ engine.pending) : final.PlainInv pool priority := by
  obtain ⟨state, hs, hco⟩ := h.coResident
  have hs' := engine.get?_pools_granted ticketId request now pool
  rw [hs, Option.map_some, ← hpools] at hs'
  refine ⟨ht, ⟨_, hs', hco⟩, fun q hq => h.pending q (hpending q hq), ?_, ?_⟩
  · intro id held hid
    rw [hheld] at hid
    change (engine.held.insert ticketId _).get? id = _ at hid
    rw [Dict.get?_insert] at hid
    split at hid
    · cases hid
      exact ⟨hpriority, fun _ => rfl⟩
    · exact h.held id held hid
  · rw [hevents]
    exact (h.log.append _).2

/-- What a move that admits nothing does to the queue and to the grants. -/
inductive Service (a b : LeaseEngine) : Prop
  | quiet (queue : b.pending.Sublist a.pending) (grants : ∀ group, b.grantsOf group = a.grantsOf group)
  | serve (p : PendingRequest) (queue : a.pending = p :: b.pending)
    (grants : ∀ group, b.grantsOf group =
      a.grantsOf group + if p.request.schedulingGroup = group then 1 else 0)

theorem grantsOf_granted (ticketId : String) (request : LeaseRequest) (now : Time)
    (group : LeaseSchedulingGroup) :
    (engine.granted ticketId request now).grantsOf group =
      engine.grantsOf group + if request.schedulingGroup = group then 1 else 0 := by
  show List.countP _ (.granted now ticketId request _ _ :: engine.trace) = _
  rw [List.countP_cons]
  simp [grantsOf, TraceEntry.grantsGroup]

/-- In the plain setting the first request that fits is the first in the queue. -/
theorem PlainInv.firstFit_zero (h : engine.PlainInv pool priority) {now : Time} {index : Nat}
    {p : PendingRequest} (hfirst : engine.FirstFit now index p) : index = 0 := by
  cases index with
  | zero => rfl
  | succ index =>
    have hp := List.mem_of_getElem? hfirst.get
    have hroom := (h.fits_iff (h.pending p hp).1 now).mp hfirst.fits
    cases hpending : engine.pending with
    | nil =>
      rw [hpending] at hp
      cases hp
    | cons q rest =>
      have hq : q ∈ engine.pending := by rw [hpending]; exact List.mem_cons_self
      refine absurd ((h.fits_iff (h.pending q hq).1 now).mpr hroom) ?_
      exact hfirst.first 0 (Nat.succ_pos _) q (by rw [hpending]; rfl)

end Plain

end LeaseEngine

open LeaseEngine

section Moves

variable {pool : String} {priority : Priority} {base : Nat} {now : Time} {a b : LeaseEngine}

theorem Move.agingThreshold_eq {own : LeaseRequest → Prop} (hmove : Move base now own a b) :
    b.agingThreshold = a.agingThreshold := by
  cases hmove with
  | prune hp => rw [hp.frame]
  | resort =>
    rcases a.refreshAgedOrder_cases now with hr | hr <;> rw [hr]
    rfl
  | _ => rfl

theorem Move.young {own : LeaseRequest → Prop} (hmove : Move base now own a b)
    (h : a.Young now) : b.Young now := by
  intro p hp
  rw [hmove.agingThreshold_eq]
  rcases hmove.pending_cases hp with ⟨q, hq, rank, rfl⟩ | ⟨-, -, hnow, -⟩
  · exact h q hq
  · rw [hnow, sub_self]
    exact Int.natCast_nonneg _

/-- A move of a call that admits nothing: the queue only shrinks, and from the front when a request
is granted. -/
theorem Move.service (hmove : Move base now (fun _ => False) a b) (h : a.PlainInv pool priority)
    (hyoung : a.Young now) : Service a b ∧ b.PlainInv pool priority := by
  have ht := hmove.ticketInv h.tickets
  have hkeep : ∀ id held, a.held.get? id = some held → ∃ old, a.held.get? id = some old ∧
      held.grant = old.grant ∧ ∀ t, held.yieldDemands.get? t = none :=
    fun id held hid => ⟨held, hid, rfl, (h.held id held hid).2⟩
  cases hmove with
  | grant mine => exact mine.elim
  | grantFailed mine => exact mine.elim
  | queue mine => exact mine.elim
  | prune hp =>
    refine ⟨.quiet (by rw [hp.pending_eq]) fun group => by rw [grantsOf, hp.trace_eq]; rfl,
      h.of_frame ht ?_ ?_ ?_ ?_⟩
    · intro state hs
      obtain ⟨state', hs', rfl | rfl⟩ := hp.get?_some hs
      · exact ⟨_, hs', rfl⟩
      · exact ⟨_, hs', by simp⟩
    · intro p hp'
      exact hp.pending_eq ▸ hp'
    · intro id held hid
      exact hkeep id held (hp.held_eq ▸ hid)
    · rw [hp.events_eq]
      exact h.log
  | @openPool q campaign absent =>
    refine ⟨.quiet (.refl _) fun _ => rfl, h.of_frame ht ?_ (fun _ hp => hp) hkeep h.log⟩
    intro state hs
    have hne : pool ≠ q := by
      rintro rfl
      rw [absent] at hs
      cases hs
    exact ⟨state, (Dict.get?_insert_ne _ _ hne).trans hs, rfl⟩
  | skip =>
    exact ⟨.quiet (.refl _) fun _ => rfl,
      h.of_frame ht (fun state hs => ⟨state, hs, rfl⟩) (fun _ hp => hp) hkeep h.log⟩
  | withdraw =>
    exact ⟨.quiet List.filter_sublist fun _ => rfl, h.of_frame ht (fun state hs => ⟨state, hs, rfl⟩)
      (fun _ hp => List.mem_of_mem_filter hp) hkeep h.log⟩
  | resort =>
    rw [h.refresh hyoung]
    exact ⟨.quiet (.refl _) fun _ => rfl, h⟩
  | @promote index p select logged =>
    have hindex := h.firstFit_zero select
    subst hindex
    have hget := select.get
    have hp := List.mem_of_getElem? select.get
    refine ⟨?_, h.granted (h.pending p hp).2.1 ht rfl rfl rfl ?_⟩
    · cases hpending : a.pending with
      | nil =>
        rw [hpending] at hget
        cases hget
      | cons q rest =>
        rw [hpending] at hget
        cases hget
        refine .serve p ?_ fun group => grantsOf_granted ..
        show a.pending = p :: a.pending.eraseIdx 0
        rw [hpending]
        rfl
    · intro q hq
      exact List.mem_of_mem_eraseIdx hq
  | @promoteFailed index p select failed => exact absurd (h.logged ..) failed
  | @finish how leaseId held get =>
    refine ⟨.quiet (.refl _) fun _ => rfl, h.of_frame ht ?_ (fun _ hp => hp) ?_ h.log⟩
    · intro state hs
      have hs' := a.get?_pools_finished how leaseId held pool
      rw [hs, Option.map_some] at hs'
      exact ⟨_, hs', rfl⟩
    · intro id held hid
      change (a.held.erase _).get? id = _ at hid
      rw [Dict.get?_erase] at hid
      split at hid
      · cases hid
      · exact hkeep id held hid
  | @reconcile deadline ok =>
    refine ⟨.quiet (.refl _) fun _ => rfl,
      h.of_frame ht (fun state hs => ⟨state, hs, rfl⟩) (fun _ hp => hp) ?_ h.log⟩
    intro id held hid
    have hnone := h.no_demand hid
    change (a.held.mapVals _).get? id = _ at hid
    rw [Dict.get?_mapVals, Option.map_eq_some_iff] at hid
    obtain ⟨old, hold, rfl⟩ := hid
    exact ⟨old, hold, rfl, hnone⟩
  | @cancel ticketId pending =>
    refine ⟨.quiet List.eraseP_sublist fun _ => rfl,
      h.of_frame ht (fun state hs => ⟨state, hs, rfl⟩) (fun _ hp => List.mem_of_mem_eraseP hp) ?_
        h.log⟩
    intro id held hid
    change (a.held.mapVals _).get? id = _ at hid
    rw [Dict.get?_mapVals, Option.map_eq_some_iff] at hid
    obtain ⟨old, hold, rfl⟩ := hid
    refine ⟨old, hold, rfl, fun t => ?_⟩
    rw [Dict.get?_erase, (h.held id old hold).2 t]
    split <;> rfl

/-- `b` waits as the oldest of its group, and what every other group has been granted since `start`
and has ahead of `b` comes to one request at most. -/
structure LeaseEngine.Waiting (start : LeaseEngine) (b : PendingRequest) (engine : LeaseEngine) :
    Prop where
  mem : b ∈ engine.pending
  oldest : Oldest engine.pending b
  bound : ∀ group ≠ b.request.schedulingGroup,
    engine.grantsOf group + (ahead b.ticketId group engine.pending).length ≤
      start.grantsOf group + 1

theorem LeaseEngine.Service.sublist (h : Service a b) : b.pending.Sublist a.pending := by
  cases h with
  | quiet queue _ => exact queue
  | serve p queue _ =>
    rw [queue]
    exact List.sublist_cons_self p _

theorem LeaseEngine.TicketInv.nodup_pendingIds (h : a.TicketInv) :
    (a.pending.map (·.ticketId)).Nodup :=
  (List.nodup_append.mp (List.nodup_append.mp h.nodup).1).2.1

theorem LeaseEngine.Service.waiting (h : Service a b) (ht : a.TicketInv) {start : LeaseEngine}
    {p : PendingRequest} (hw : Waiting start p a) (hmem : p.ticketId ∈ b.pendingIds) :
    Waiting start p b := by
  have hsub := h.sublist
  refine ⟨?_, fun q hq => hw.oldest q (hsub.subset hq), fun group hgroup => ?_⟩
  · obtain ⟨q, hq, heq⟩ := List.mem_map.mp hmem
    rw [← ht.pending_unique hw.mem (hsub.subset hq) heq]
    exact hq
  have hbound := hw.bound group hgroup
  cases h with
  | quiet queue grants =>
    have hahead : (ahead p.ticketId group b.pending).length ≤
        (ahead p.ticketId group a.pending).length :=
      ahead_sublist queue ht.nodup_pendingIds hmem
    rw [grants]
    omega
  | serve q queue grants =>
    have hne : q.ticketId ≠ p.ticketId := by
      intro heq
      have hnodup := ht.nodup_pendingIds
      rw [queue, List.map_cons, List.nodup_cons, heq] at hnodup
      exact hnodup.1 hmem
    rw [queue, ahead_cons hne] at hbound
    rw [grants]
    omega

/-- A call that admits nothing keeps the setting, and the bound of a request that it leaves
waiting. -/
theorem Moves.service (hmoves : Moves base now (fun _ => False) a b)
    (h : a.PlainInv pool priority) (hyoung : a.Young now) :
    b.PlainInv pool priority ∧ b.Young now ∧ ∀ start p, Waiting start p a →
      p.ticketId ∈ b.pendingIds → Waiting start p b := by
  induction hmoves with
  | refl => exact ⟨h, hyoung, fun _ _ hw _ => hw⟩
  | @tail b c hmoves hmove ih =>
    obtain ⟨hb, hyoungb, hwait⟩ := ih
    obtain ⟨hservice, hc⟩ := hmove.service hb hyoungb
    refine ⟨hc, hmove.young hyoungb, fun start p hw hmem => ?_⟩
    have hissued : b.Issued p.ticketId :=
      Moves.issued hmoves (h.tickets.issued _ (LeaseEngine.mem_tickets.mpr (.inr (.inl ⟨p, hw.mem, rfl⟩))))
    have hbefore := hmove.mem_pendingIds hissued hmem
    exact hservice.waiting hb.tickets (hwait start p hw hbefore) hmem

/-! ## Calls -/

/-- In the plain setting a reconciliation changes neither the queue nor the room in the pool. -/
theorem LeaseEngine.PlainInv.reconcile (h : a.PlainInv pool priority) (hyoung : a.Young now)
    {result : Except LeaseError Unit} (hexec : (reconcileYieldDemands now).exec a = (result, b)) :
    b.pending = a.pending ∧ (b.Room pool ↔ a.Room pool) := by
  rcases reconcile_spec hexec with ⟨_, -, hp⟩ | ⟨-, mid, deadline, hp, -, rfl⟩
  · rw [h.refresh hyoung] at hp
    exact ⟨hp.pending_eq, room_pruneOf hp⟩
  · rw [h.refresh hyoung] at hp
    have hroom : mid.Room pool ↔ a.Room pool := room_pruneOf hp
    exact ⟨hp.pending_eq, hroom⟩

theorem LeaseEngine.PlainInv.promoteLoop_ok (h : a.PlainInv pool priority) (hyoung : a.Young now)
    {rounds : Nat} {result : Except LeaseError (List LeaseGrant)}
    (hexec : (promoteLoop now rounds).exec a = (result, b)) : ∃ grants, result = .ok grants := by
  induction rounds generalizing a result with
  | zero =>
    cases hexec
    exact ⟨_, rfl⟩
  | succ rounds ih =>
    cases promoteLoop_round hexec with
    | failed hp stuck =>
      obtain ⟨q, hq, hstuck⟩ := stuck
      exact absurd hstuck (h.not_stuck (h.pending q hq).1 now)
    | done => exact ⟨_, rfl⟩
    | unlogged hp select failed =>
      have hprune : Move 0 now (fun _ => False) a _ := .prune hp
      exact absurd ((hprune.service h hyoung).2.logged ..) failed
    | @granted mid index p rest _ hp select logged more =>
      have hmoves : Moves 0 now (fun _ => False) a (mid.promoted index p now) :=
        hp.moves.tail (.promote select logged)
      obtain ⟨hmid, hyoungmid, -⟩ := hmoves.service h hyoung
      obtain ⟨grants, rfl⟩ := ih hmid hyoungmid more
      exact ⟨_, rfl⟩

/-- After a promotion nobody waits while there is room. -/
theorem LeaseEngine.PlainInv.promote_full (h : a.PlainInv pool priority) (hyoung : a.Young now)
    {result : Except LeaseError (List LeaseGrant)} (hexec : (promote now).exec a = (result, b)) :
    ∃ grants, result = .ok grants ∧ b.Full pool := by
  have hmoves : Moves 0 now (fun _ => False) a b := promote_moves hexec
  obtain ⟨hb, -, -⟩ := hmoves.service h hyoung
  have hloop := hexec
  rw [promote, Eff.exec_bind] at hloop
  simp only [Eff.exec_modify] at hloop
  rw [Eff.exec_bind, h.refresh hyoung] at hloop
  obtain ⟨grants, rfl⟩ := h.promoteLoop_ok hyoung hloop
  refine ⟨grants, rfl, fun hne hroom => ?_⟩
  obtain ⟨q, hq⟩ := List.exists_mem_of_ne_nil _ hne
  exact promote_done hexec q hq ((hb.fits_iff (hb.pending q hq).1 now).mpr hroom)

/-- Nobody can be preempted. -/
theorem LeaseEngine.PlainInv.preemptEach (h : a.PlainInv pool priority) {reclaimed : List String}
    {result : Except LeaseError (List LeaseGrant)}
    (hexec : (LeaseEngine.preemptEach now reclaimed).exec a = (result, b)) : b = a := by
  cases reclaimed with
  | nil =>
    cases hexec
    rfl
  | cons leaseId rest =>
    rcases preemptEach_cons hexec with ⟨rfl, -⟩ | ⟨held, hs, hreclaim, -⟩
    · rfl
    · simp only [reclaimable, List.any_eq_true] at hreclaim
      obtain ⟨demand, hmem, -⟩ := hreclaim
      obtain ⟨ticketId, hdemand⟩ := (Dict.mem_values_iff _).mp hmem
      rw [(h.held leaseId held hs).2 ticketId] at hdemand
      cases hdemand

theorem LeaseEngine.PlainInv.commitPreemptions_full (h : a.PlainInv pool priority)
    (hyoung : a.Young now) (hfull : a.Full pool) {reclaimed : List String}
    {result : Except LeaseError TickOutcome}
    (hexec : (commitPreemptions reclaimed now).exec a = (result, b)) : b.Full pool := by
  have hkeep : ∀ {a b : LeaseEngine} {result : Except LeaseError Unit}, a.PlainInv pool priority →
      a.Young now → a.Full pool → (reconcileYieldDemands now).exec a = (result, b) →
      b.PlainInv pool priority ∧ b.Young now ∧ b.Full pool := by
    intro a b result h hyoung hfull hrec
    have hmoves : Moves 0 now (fun _ => False) a b := reconcile_moves hrec
    obtain ⟨hb, hyoungb, -⟩ := hmoves.service h hyoung
    obtain ⟨hpending, hroom⟩ := h.reconcile hyoung hrec
    exact ⟨hb, hyoungb, fun hne => hroom.not.mpr (hfull (hpending ▸ hne))⟩
  rcases commitPreemptions_cases hexec with ⟨_, hrec, -⟩ | ⟨mid, hrec, hrest⟩
  · exact (hkeep h hyoung hfull hrec).2.2
  obtain ⟨hmid, hyoungmid, hfullmid⟩ := hkeep h hyoung hfull hrec
  rcases hrest with ⟨_, hpre, -⟩ | ⟨_, mid', hpre, ⟨_, hpro, herr⟩ | ⟨_, c, hpro, _, hlast, -⟩⟩
  · rw [hmid.preemptEach hpre]
    exact hfullmid
  · obtain rfl := hmid.preemptEach hpre
    obtain ⟨_, hok, -⟩ := hmid.promote_full hyoungmid hpro
    cases hok
  · obtain rfl := hmid.preemptEach hpre
    obtain ⟨_, -, hfullc⟩ := hmid.promote_full hyoungmid hpro
    have hmoves : Moves 0 now (fun _ => False) mid' c := promote_moves hpro
    obtain ⟨hc, hyoungc, -⟩ := hmoves.service hmid hyoungmid
    exact (hkeep hc hyoungc hfullc hlast).2.2

/-! ### Queueing -/

theorem LeaseEngine.PlainInv.nodup_sequences (h : a.PlainInv pool priority) :
    (a.pending.map (·.sequence)).Nodup := by
  have hnodup := h.tickets.nodup_pendingIds
  have hmap : a.pending.map (·.ticketId) =
      (a.pending.map (·.sequence)).map (leaseTicket a.epoch) := by
    rw [List.map_map]
    exact List.map_congr_left fun p hp => h.tickets.sequence p hp
  rw [hmap] at hnodup
  exact hnodup.of_map

/-- The request that `queued` puts into the queue. -/
def LeaseEngine.arrival (engine : LeaseEngine) (request : LeaseRequest) (now : Time) :
    PendingRequest where
  ticketId := engine.nextTicket
  sequence := engine.nextSequence
  request := request
  admittedAt := now
  effectiveRank := request.priority.rank

theorem LeaseEngine.PlainInv.queued_pending (h : a.PlainInv pool priority) (hyoung : a.Young now)
    {request : LeaseRequest} :
    (a.queued request now).pending = sortByKey (a.pending ++ [a.arrival request now]) := by
  show sortByKey (rerank now a.agingThreshold (a.pending ++ [a.arrival request now])) = _
  congr 1
  unfold rerank
  conv_rhs => rw [← List.map_id (a.pending ++ _)]
  apply List.map_congr_left
  intro q hq
  have hrank : effectiveRankAt q now a.agingThreshold = q.effectiveRank := by
    rcases List.mem_append.mp hq with hq | hq
    · exact (h.rank_current hyoung hq).symm
    · rw [List.mem_singleton] at hq
      subst hq
      have hage : ¬ now - now > (a.agingThreshold : Int) := by
        rw [sub_self]
        exact not_lt.mpr (Int.natCast_nonneg _)
      exact if_neg hage
  rw [hrank]
  rfl

theorem LeaseEngine.PlainInv.queued (h : a.PlainInv pool priority) (hyoung : a.Young now)
    {request : LeaseRequest} (hpools : request.pools = [pool])
    (hpriority : request.priority = priority) (ht : (a.queued request now).TicketInv) :
    (a.queued request now).PlainInv pool priority := by
  refine ⟨ht, h.coResident, fun q hq => ?_, h.held, h.log⟩
  rw [h.queued_pending hyoung, (perm_sortByKey _).mem_iff, List.mem_append,
    List.mem_singleton] at hq
  rcases hq with hq | rfl
  · exact h.pending q hq
  · exact ⟨hpools, hpriority, by rw [← hpriority]; rfl⟩

theorem LeaseEngine.PlainInv.queued_waiting (h : a.PlainInv pool priority) (hyoung : a.Young now)
    {request : LeaseRequest} (hpriority : request.priority = priority) {start : LeaseEngine}
    {p : PendingRequest} (hw : Waiting start p a)
    (hclear : ∀ group ≠ p.request.schedulingGroup, start.grantsOf group < a.grantsOf group →
      ∀ q ∈ a.pending, q.request.schedulingGroup = group → p.sequence < q.sequence) :
    Waiting start p (a.queued request now) := by
  have hpending : (a.queued request now).pending = sortByKey (a.pending ++ [a.arrival request now]) :=
    h.queued_pending hyoung
  have hnew : ∀ q ∈ a.pending, q.sequence < a.nextSequence := by
    intro q hq
    obtain ⟨n, -, hn, heq⟩ :=
      h.tickets.issued q.ticketId (LeaseEngine.mem_tickets.mpr (.inr (.inl ⟨q, hq, rfl⟩)))
    rw [h.tickets.sequence q hq] at heq
    rwa [leaseTicket_inj.mp heq]
  have hp := hnew p hw.mem
  have hmem : p ∈ a.pending ++ [a.arrival request now] := List.mem_append_left _ hw.mem
  have hrank : ∀ q ∈ a.pending ++ [a.arrival request now], q.effectiveRank = priority.rank := by
    intro q hq
    rcases List.mem_append.mp hq with hq | hq
    · exact (h.pending q hq).2.2
    · rw [List.mem_singleton.mp hq, ← hpriority]
      rfl
  have hold : Oldest (a.pending ++ [a.arrival request now]) p := by
    intro q hq hgroup
    rcases List.mem_append.mp hq with hq | hq
    · exact hw.oldest q hq hgroup
    · rw [List.mem_singleton.mp hq]
      exact hp.le
  have hnodup : ((a.pending ++ [a.arrival request now]).map (·.sequence)).Nodup := by
    rw [List.map_append, List.map_singleton, List.nodup_append]
    refine ⟨h.nodup_sequences, List.nodup_singleton _, fun m hm n hn => ?_⟩
    obtain ⟨q, hq, rfl⟩ := List.mem_map.mp hm
    rw [List.mem_singleton.mp hn]
    exact (hnew q hq).ne
  refine ⟨?_, ?_, fun group hgroup => ?_⟩
  · rw [hpending, (perm_sortByKey _).mem_iff]
    exact hmem
  · intro q hq
    rw [hpending, (perm_sortByKey _).mem_iff] at hq
    exact hold q hq
  obtain ⟨hle, holder⟩ := ahead_sortByKey hmem hrank hold hnodup hgroup
  rw [← hpending] at hle holder
  have hbound := hw.bound group hgroup
  have hgrants : (a.queued request now).grantsOf group = a.grantsOf group := rfl
  rw [hgrants]
  by_cases hone : (ahead p.ticketId group (a.queued request now).pending).length = 1
  · -- the group is sorted ahead again: it has an older request, so it was not served before
    obtain ⟨q, hq, hqgroup, hlt⟩ := holder hone
    have hold' : q ∈ a.pending := by
      refine (List.mem_append.mp hq).resolve_right fun hq => ?_
      rw [List.mem_singleton.mp hq] at hlt
      exact absurd hlt (not_lt.mpr hp.le)
    have hserved : ¬ start.grantsOf group < a.grantsOf group := fun hs =>
      absurd (hclear group hgroup hs q hold' hqgroup) (not_lt.mpr hlt.le)
    omega
  · omega

/-! ### The step theorem -/

/-- The setting and the waiting requests after a call. -/
structure LeaseEngine.PlainStep (pool : String) (priority : Priority) (a : LeaseEngine) (op : Op)
    (b : LeaseEngine) : Prop where
  plain : b.PlainInv pool priority
  full : b.Full pool
  waiting : ∀ start p, Waiting start p a → Undisturbed start p a op → p.ticketId ∈ b.pendingIds →
    Waiting start p b

theorem LeaseEngine.PlainInv.opened_eq (h : a.PlainInv pool priority) {request : LeaseRequest}
    (hpools : request.pools = [pool]) : a.opened request = a := by
  obtain ⟨state, hs, -⟩ := h.coResident
  have hopen : request.pools.foldl openCampaignPool a.pools = a.pools := by
    rw [hpools, List.foldl_cons, List.foldl_nil, openCampaignPool, hs]
    split <;> rfl
  rw [opened, hopen]

/-- A request is queued and the demands are reconciled, with or without success. -/
theorem LeaseEngine.PlainInv.queue_step (h : a.PlainInv pool priority) (hyoung : a.Young now)
    {request : LeaseRequest} (hpools : request.pools = [pool])
    (hpriority : request.priority = priority) {mid : LeaseEngine} (hp : PruneOf now a mid)
    (small : mid.nextSequence + 1 ≤ u64Max) (ok : mid.Admissible request)
    (full : ¬ mid.Fits request now) {result : Except LeaseError Unit}
    (hexec : (reconcileYieldDemands now).exec (mid.queued request now) = (result, b)) :
    b.PlainInv pool priority ∧ ¬ b.Room pool ∧ ∀ start p, Waiting start p a →
      (∀ group ≠ p.request.schedulingGroup, start.grantsOf group < a.grantsOf group →
        ∀ q ∈ a.pending, q.request.schedulingGroup = group → p.sequence < q.sequence) →
      p.ticketId ∈ b.pendingIds → Waiting start p b := by
  have hprune : Move 0 now (fun _ => False) a mid := .prune hp
  obtain ⟨hservice, hmid⟩ := hprune.service h hyoung
  have hyoungmid := hprune.young hyoung
  have hqueue : Move 0 now (fun _ => True) mid (mid.queued request now) := .queue trivial small ok full
  have hqueued := hmid.queued hyoungmid hpools hpriority (hqueue.ticketInv hmid.tickets)
  have hyoungq := hqueue.young hyoungmid
  have hmoves : Moves 0 now (fun _ => False) (mid.queued request now) b := reconcile_moves hexec
  obtain ⟨hb, -, hwaiting⟩ := hmoves.service hqueued hyoungq
  obtain ⟨-, hroom⟩ := hqueued.reconcile hyoungq hexec
  refine ⟨hb, fun hr => full ((hmid.fits_iff hpools now).mpr (hroom.mp hr)), ?_⟩
  intro start p hw hclear hmem
  have hmem' : p.ticketId ∈ mid.pendingIds := by
    rw [pendingIds, hp.pending_eq]
    exact List.mem_map_of_mem hw.mem
  have hwmid := hservice.waiting h.tickets hw hmem'
  refine hwaiting start p (hmid.queued_waiting hyoungmid hpriority hwmid ?_) hmem
  intro group hgroup hserved q hq
  rw [hp.pending_eq] at hq
  have hgrants : mid.grantsOf group = a.grantsOf group := by rw [grantsOf, hp.trace_eq]; rfl
  rw [hgrants] at hserved
  exact hclear group hgroup hserved q hq

theorem LeaseEngine.PlainInv.withdrawn (h : a.PlainInv pool priority) (ticketId : String) :
    Service a (a.withdrawn ticketId) ∧ (a.withdrawn ticketId).PlainInv pool priority := by
  have hsub : (a.withdrawn ticketId).pending.Sublist a.pending := List.filter_sublist
  refine ⟨.quiet hsub fun _ => rfl, ?_⟩
  have htickets : (a.withdrawn ticketId).tickets.Sublist a.tickets :=
    ((hsub.map _).append_left _).append_right _
  have ht : (a.withdrawn ticketId).TicketInv := by
    refine ⟨h.tickets.positive, h.tickets.nodup.sublist htickets, ?_, h.tickets.key, ?_⟩
    · intro t ht
      exact h.tickets.issued t (htickets.subset ht)
    · intro p hp
      exact h.tickets.sequence p (hsub.subset hp)
  exact ⟨ht, h.coResident, fun q hq => h.pending q (hsub.subset hq), h.held, h.log⟩

theorem LeaseEngine.PlainInv.admitAt_step (h : a.PlainInv pool priority) (hfull : a.Full pool)
    {original : LeaseRequest} (hyoung : a.Young now) (hpools : original.pools = [pool])
    (hpriority : original.priority = priority) {result : Except LeaseError AdmitOutcome}
    (hexec : (admitAt original now).exec a = (result, b)) :
    PlainStep pool priority a (.admitAt original now) b := by
  have hrequest : ∀ {request}, a.canonicalizeRequest original = .ok request →
      request.pools = [pool] ∧ request.priority = priority ∧ a.opened request = a ∧
        a.validateAdmission original = .ok () := by
    intro request hc
    have hvalid : a.validateAdmission original = .ok () := by rw [validateAdmission, hc]
    obtain ⟨pools, hcanonical, rfl, -⟩ := canonicalizeRequest_eq hc
    have hperm := (Poolset.canonicalize_canonical hcanonical).2
    rw [hpools, List.perm_singleton] at hperm
    exact ⟨hperm, hpriority, h.opened_eq hperm, hvalid⟩
  cases admitAt_exit hexec with
  | invalid => exact ⟨h, hfull, fun _ _ hw _ _ => hw⟩
  | overflow hc =>
    rw [(hrequest hc).2.2.1]
    exact ⟨h, hfull, fun _ _ hw _ _ => hw⟩
  | failed hc small hp stuck =>
    obtain ⟨hpool, -, hopened, -⟩ := hrequest hc
    rw [hopened] at stuck
    exact absurd stuck (h.not_stuck hpool now)
  | @unlogged request error mid hc small hp ok fits pruned failed =>
    obtain ⟨-, -, hopened, -⟩ := hrequest hc
    rw [hopened] at hp
    have hprune : Move 0 now (fun _ => False) a mid := .prune hp
    exact absurd ((hprune.service h hyoung).2.logged ..) failed
  | @granted request mid hc small hp ok fits pruned logged =>
    obtain ⟨hpool, hprio, hopened, -⟩ := hrequest hc
    rw [hopened] at hp
    have hprune : Move 0 now (fun _ => False) a mid := .prune hp
    have hmid := (hprune.service h hyoung).2
    have hroom : a.Room pool := (room_pruneOf hp).mp ((hmid.fits_iff hpool now).mp fits)
    have hnil : a.pending = [] := by
      by_contra hne
      exact hfull hne hroom
    have hsmall : mid.nextSequence + 1 ≤ u64Max := by
      rw [hp.nextSequence_eq]
      exact small
    have hgrant : Move 0 now (fun _ => True) mid (mid.granted mid.nextTicket request now).bump :=
      .grant trivial hsmall ok fits pruned logged
    have hpending : (mid.granted mid.nextTicket request now).bump.pending = [] :=
      hp.pending_eq.trans hnil
    refine ⟨?_, fun hne => absurd hpending hne, fun start p hw => ?_⟩
    · refine hmid.granted hprio (hgrant.ticketInv hmid.tickets) rfl rfl rfl ?_
      intro p hp'
      rw [hpending] at hp'
      cases hp'
    · have hmem := hw.mem
      rw [hnil] at hmem
      cases hmem
  | @queued request mid _ hc small hp ok full reconcile =>
    obtain ⟨hpool, hprio, hopened, hvalid⟩ := hrequest hc
    rw [hopened] at hp
    obtain ⟨hplain, hroom, hwaiting⟩ := h.queue_step hyoung hpool hprio hp
      (by rw [hp.nextSequence_eq]; exact small) ok full reconcile
    refine ⟨hplain, fun _ => hroom, fun start p hw hclear hmem => ?_⟩
    exact hwaiting start p hw (hclear original now rfl hvalid) hmem
  | @unqueued request error mid last hc small hp ok full reconcile =>
    obtain ⟨hpool, hprio, hopened, hvalid⟩ := hrequest hc
    rw [hopened] at hp
    obtain ⟨hplain, hroom, hwaiting⟩ := h.queue_step hyoung hpool hprio hp
      (by rw [hp.nextSequence_eq]; exact small) ok full reconcile
    obtain ⟨hsub, hframe⟩ := hplain.withdrawn mid.nextTicket
    refine ⟨hframe, fun _ => hroom, fun start p hw hclear hmem => ?_⟩
    have hlast : p.ticketId ∈ last.pendingIds := (hsub.sublist.map _).subset hmem
    exact hsub.waiting hplain.tickets
      (hwaiting start p hw (hclear original now rfl hvalid) hlast) hmem

theorem Op.plain_step (op : Op) (h : a.PlainInv pool priority) (hfull : a.Full pool)
    (hplain : Plain pool priority a op) : PlainStep pool priority a op (op.exec a).2 := by
  obtain ⟨huniform, hyoung⟩ := hplain
  have hmoves := op.exec_moves a
  rcases hexec : op.exec a with ⟨result, b⟩
  rw [hexec] at hmoves
  -- a call that admits nothing: only the room in the pool is left to show
  have hquiet : op.Admits a = (fun _ => False) → b.Full pool → PlainStep pool priority a op b := by
    intro hadmits hb
    rw [hadmits] at hmoves
    obtain ⟨hplain, -, hwaiting⟩ := hmoves.service h hyoung
    exact ⟨hplain, hb, fun start p hw _ hmem => hwaiting start p hw hmem⟩
  have hframe : ∀ {now}, PruneOf now a b → b.Full pool := by
    intro now hp hne
    rw [room_pruneOf hp]
    exact hfull (hp.pending_eq ▸ hne)
  unfold Op.exec at hexec
  cases op with
  | admitAt original now =>
    obtain ⟨_, hcall, -⟩ := exec_map hexec
    exact h.admitAt_step hfull hyoung huniform.1 huniform.2 hcall
  | releaseAt leaseId epoch now =>
    obtain ⟨_, hcall, -⟩ := exec_map hexec
    refine hquiet rfl ?_
    rcases releaseAt_cases hcall with ⟨rfl, -⟩ | ⟨held, hs, hrest⟩
    · exact hfull
    have hfinish : Moves 0 now (fun _ => False) a (a.finished .released leaseId held) :=
      Move.moves (.finish hs)
    obtain ⟨hfinished, hyoungf, -⟩ := hfinish.service h hyoung
    rcases hrest with ⟨_, hpro, -⟩ | ⟨_, mid, hpro, _, hrec, -⟩
    · obtain ⟨_, hok, -⟩ := hfinished.promote_full hyoungf hpro
      cases hok
    · obtain ⟨_, -, hfullmid⟩ := hfinished.promote_full hyoungf hpro
      have hpromote : Moves 0 now (fun _ => False) _ mid := promote_moves hpro
      obtain ⟨hmid, hyoungmid, -⟩ := hpromote.service hfinished hyoungf
      obtain ⟨hpending, hroom⟩ := hmid.reconcile hyoungmid hrec
      exact fun hne => hroom.not.mpr (hfullmid (hpending ▸ hne))
  | cancelPendingAt ticketId epoch now =>
    obtain ⟨_, hcall, -⟩ := exec_map hexec
    refine hquiet rfl ?_
    rcases cancelPendingAt_cases hcall with ⟨rfl, -⟩ | ⟨-, rfl, -⟩
    · exact hfull
    · intro hne
      have hne' : a.pending ≠ [] := by
        intro hnil
        refine hne ?_
        show a.pending.eraseP _ = []
        rw [hnil]
        rfl
      exact hfull hne'
  | planTick now =>
    obtain ⟨_, hcall, -⟩ := exec_map hexec
    obtain ⟨_, hrec, -⟩ := planTick_cases hcall
    obtain ⟨hpending, hroom⟩ := h.reconcile hyoung hrec
    exact hquiet rfl fun hne => hroom.not.mpr (hfull (hpending ▸ hne))
  | commitPreemptions reclaimed now =>
    obtain ⟨_, hcall, -⟩ := exec_map hexec
    exact hquiet rfl (h.commitPreemptions_full hyoung hfull hcall)
  | tick now =>
    obtain ⟨_, hcall, -⟩ := exec_map hexec
    refine hquiet rfl ?_
    rcases tick_cases hcall with ⟨_, hplan, -⟩ | ⟨planned, mid, hplan, hcommit⟩
    · obtain ⟨_, hrec, -⟩ := planTick_cases hplan
      obtain ⟨hpending, hroom⟩ := h.reconcile hyoung hrec
      exact fun hne => hroom.not.mpr (hfull (hpending ▸ hne))
    · obtain ⟨_, hrec, -⟩ := planTick_cases hplan
      obtain ⟨hpending, hroom⟩ := h.reconcile hyoung hrec
      have hreconcile : Moves 0 now (fun _ => False) a mid := reconcile_moves hrec
      obtain ⟨hmid, hyoungmid, -⟩ := hreconcile.service h hyoung
      refine hmid.commitPreemptions_full hyoungmid ?_ hcommit
      exact fun hne => hroom.not.mpr (hfull (hpending ▸ hne))
  | budgetUsedAt q now =>
    obtain ⟨_, hcall, -⟩ := exec_map hexec
    exact hquiet rfl (hframe (budgetUsedAt_pruneOf hcall))
  | windowResetAt q now =>
    obtain ⟨_, hcall, -⟩ := exec_map hexec
    exact hquiet rfl (hframe (windowResetAt_pruneOf hcall))
  | status leaseId epoch now =>
    obtain ⟨_, hcall, -⟩ := exec_map hexec
    obtain rfl := status_frame hcall
    exact hquiet rfl hfull

end Moves

/-! ## Runs -/

theorem LeaseEngine.run_plain {pool : String} {priority : Priority} {engine : LeaseEngine}
    (h : engine.PlainInv pool priority) (hfull : engine.Full pool) {ops : List Op}
    (hplain : Along (Plain pool priority) engine ops) :
    (engine.run ops).PlainInv pool priority ∧ (engine.run ops).Full pool := by
  induction ops generalizing engine with
  | nil => exact ⟨h, hfull⟩
  | cons op ops ih =>
    have hstep := op.plain_step h hfull hplain.1
    exact ih hstep.plain hstep.full hplain.2

/-- A ticket that still waits at the end of a run has waited all the time. -/
theorem LeaseEngine.run_mem_pendingIds {engine : LeaseEngine} {t : String} (h : engine.Issued t)
    {ops : List Op} (ht : t ∈ (engine.run ops).pendingIds) : t ∈ engine.pendingIds := by
  induction ops generalizing engine with
  | nil => exact ht
  | cons op ops ih =>
    have hmoves := op.exec_moves engine
    exact hmoves.mem_pendingIds h (ih (hmoves.issued h) ht)

theorem LeaseEngine.run_waiting {pool : String} {priority : Priority} {start engine : LeaseEngine}
    {p : PendingRequest} (h : engine.PlainInv pool priority) (hfull : engine.Full pool)
    {ops : List Op} (hplain : Along (Plain pool priority) engine ops)
    (hclear : Along (Undisturbed start p) engine ops) (hw : Waiting start p engine)
    (hmem : p.ticketId ∈ (engine.run ops).pendingIds) : Waiting start p (engine.run ops) := by
  induction ops generalizing engine with
  | nil => exact hw
  | cons op ops ih =>
    have hstep := op.plain_step h hfull hplain.1
    have hissued : (op.exec engine).2.Issued p.ticketId :=
      (op.exec_moves engine).issued
        (h.tickets.issued _ (LeaseEngine.mem_tickets.mpr (.inr (.inl ⟨p, hw.mem, rfl⟩))))
    have hnext := run_mem_pendingIds hissued hmem
    exact ih hstep.plain hstep.full hplain.2 hclear.2 (hstep.waiting start p hw hclear.1 hnext) hmem

/-- Group fairness as far as it goes. The engine has a co-residency pool that all requests ask for,
at one priority and without aging, and its appends succeed. If `b` starts its wait with at most one
request of each other group ahead of it, and no request is queued while a group served since then
has an older one pending, then no other group is granted two requests before `b` leaves the queue. -/
theorem group_fair_of_undisturbed {epoch yieldGrace agingThreshold : Nat}
    {pools : Dict String PoolConfig} {events : Option LeaseEventLog} {engine : LeaseEngine}
    (hnew : LeaseEngine.newWithAgingThreshold epoch yieldGrace agingThreshold pools events =
      .ok engine) (hreliable : Reliable events) {pool : String}
    (hpool : ∃ state, engine.pools.get? pool = some state ∧
      state.config.predicate = .coResidency) {priority : Priority} {before after : List Op}
    (hplain : Along (Plain pool priority) engine (before ++ after)) {b : PendingRequest}
    (hahead : ∀ group ≠ b.request.schedulingGroup,
      (ahead b.ticketId group (engine.run before).pending).length ≤ 1)
    (hclear : Along (Undisturbed (engine.run before) b) (engine.run before) after) :
    GroupFair (engine.run before) (engine.run (before ++ after)) b := by
  intro hmem hold hstill group hgroup
  obtain ⟨-, hengine⟩ := LeaseEngine.new_eq hnew
  have hstart : engine.PlainInv pool priority := by
    refine ⟨LeaseEngine.new_ticketInv hnew, hpool, ?_, ?_, ?_⟩
    · intro q hq
      rw [hengine] at hq
      cases hq
    · intro id held hid
      rw [hengine] at hid
      cases hid
    · rw [hengine]
      exact hreliable
  have hfull : engine.Full pool := by
    intro hne
    rw [hengine] at hne
    exact absurd rfl hne
  rw [along_append] at hplain
  rw [run_append] at hstill ⊢
  obtain ⟨hplainBefore, hfullBefore⟩ := run_plain hstart hfull hplain.1
  have hwaiting : Waiting (engine.run before) b (engine.run before) :=
    ⟨hmem, hold, fun group hgroup => Nat.add_le_add_left (hahead group hgroup) _⟩
  have hend := run_waiting hplainBefore hfullBefore hplain.2 hclear hwaiting hstill
  have hbound := hend.bound group hgroup
  omega

/-! A wide flow and a latecomer. The flow has two nodes in the queue when `b` arrives, one of them
ahead of it. Once that one has been granted, the arrival of any other request sorts the second node
ahead of `b` as well. -/

def latecomer : PendingRequest :=
  { ticketId := "lease-1-4", sequence := 4, admittedAt := 3, effectiveRank := 50
    request := slotRequest "b" (.flow "small") }

def wideBefore : List Op :=
  [.admitAt (slotRequest "holder") 0, .admitAt (slotRequest "a1" (.flow "wide")) 1,
    .admitAt (slotRequest "a2" (.flow "wide")) 2, .admitAt (slotRequest "b" (.flow "small")) 3]

def wideAfter : List Op :=
  [.releaseAt "lease-1-1" 1 4, .admitAt (slotRequest "c") 5, .releaseAt "lease-1-2" 1 6]

theorem wide_flow_overtakes_twice :
    Along (Plain "cpu" .medium) (slotEngine none) (wideBefore ++ wideAfter) ∧
      ¬ GroupFair ((slotEngine none).run wideBefore)
        ((slotEngine none).run (wideBefore ++ wideAfter)) latecomer := by
  refine ⟨by decide +kernel, fun hfair => ?_⟩
  have hmem : latecomer ∈ ((slotEngine none).run wideBefore).pending := by decide +kernel
  have hold : Oldest ((slotEngine none).run wideBefore).pending latecomer := by
    unfold Oldest
    decide +kernel
  have hstill : latecomer.ticketId ∈
      ((slotEngine none).run (wideBefore ++ wideAfter)).pendingIds := by decide +kernel
  have hbound := hfair hmem hold hstill (.flow "wide") (by decide)
  revert hbound
  decide +kernel

/-- With nothing queued in between, the latecomer is overtaken once only. -/
theorem group_fair_of_undisturbed_wide :
    (latecomer ∈ ((slotEngine none).run wideBefore).pending ∧
      latecomer.ticketId ∈
        ((slotEngine none).run (wideBefore ++ [.releaseAt "lease-1-1" 1 4])).pendingIds) ∧
      GroupFair ((slotEngine none).run wideBefore)
        ((slotEngine none).run (wideBefore ++ [.releaseAt "lease-1-1" 1 4])) latecomer := by
  have hreliable : Reliable none := by
    intro log hlog
    cases hlog
  have hpool : ∃ state, (slotEngine none).pools.get? "cpu" = some state ∧
      state.config.predicate = .coResidency := ⟨_, rfl, rfl⟩
  have hplain : Along (Plain "cpu" .medium) (slotEngine none)
      (wideBefore ++ [.releaseAt "lease-1-1" 1 4]) := by decide +kernel
  have hahead : ∀ group ≠ latecomer.request.schedulingGroup,
      (ahead latecomer.ticketId group ((slotEngine none).run wideBefore).pending).length ≤ 1 := by
    intro group _
    apply (List.length_filter_le _ _).trans
    decide +kernel
  have hclear : Along (Undisturbed ((slotEngine none).run wideBefore) latecomer)
      ((slotEngine none).run wideBefore) [.releaseAt "lease-1-1" 1 4] := by
    refine ⟨?_, trivial⟩
    intro request now hop
    cases hop
  exact ⟨by decide +kernel,
    group_fair_of_undisturbed (slotEngine_new none) hreliable hpool hplain hahead hclear⟩

end Tally.Lease
