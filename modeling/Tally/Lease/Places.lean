import Tally.Lease.YieldCommit

/-!
# Where leases and tickets are after a call

What a caller of the engine can rely on: which leases are held and with which grant, and which tickets
wait and with which request. An admission adds one of either kind (`admitAt_places`). Every other call
that succeeds takes some away and turns some of the waiting requests into the grants that it returns
(`Shifts`).
-/

namespace Tally.Lease.LeaseEngine

/-- The lease is held, under this grant. -/
def Holds (engine : LeaseEngine) (leaseId : String) (grant : LeaseGrant) : Prop :=
  ∃ held, engine.held.get? leaseId = some held ∧ held.grant = grant

/-- The ticket waits, with this request. -/
def Waits (engine : LeaseEngine) (ticketId : String) (request : LeaseRequest) : Prop :=
  ∃ p ∈ engine.pending, p.ticketId = ticketId ∧ p.request = request

variable {a b c : LeaseEngine} {now : Time}

theorem holds_iff {leaseId : String} {grant : LeaseGrant} :
    a.Holds leaseId grant ↔ (a.held.get? leaseId).map (·.grant) = some grant := by
  rw [Option.map_eq_some_iff]
  rfl

theorem Waits.issued (ht : a.TicketInv) {ticketId : String} {request : LeaseRequest}
    (h : a.Waits ticketId request) : a.Issued ticketId := by
  obtain ⟨p, hp, hticket, -⟩ := h
  exact ht.issued _ (mem_tickets.mpr (.inr (.inl ⟨p, hp, hticket⟩)))

/-- A ticket that waits is not held. -/
theorem Waits.not_holds (ht : a.TicketInv) {ticketId : String} {request : LeaseRequest}
    (h : a.Waits ticketId request) {grant : LeaseGrant} : ¬ a.Holds ticketId grant := by
  obtain ⟨p, hp, rfl, -⟩ := h
  rintro ⟨held, hget, -⟩
  rw [ht.not_held hp] at hget
  cases hget

/-- The leases and tickets `gone` have been taken away, the `grants` were waiting and are held, and
nothing else has changed. -/
structure Shifts (a b : LeaseEngine) (gone : List String) (grants : List LeaseGrant) : Prop where
  holds : ∀ leaseId grant, b.Holds leaseId grant ↔
    (a.Holds leaseId grant ∧ leaseId ∉ gone) ∨ (grant ∈ grants ∧ grant.leaseId = leaseId)
  waits : ∀ ticketId request, b.Waits ticketId request ↔
    a.Waits ticketId request ∧ ticketId ∉ gone ∧ ticketId ∉ grants.map (·.leaseId)
  waited : ∀ grant ∈ grants, grant.leaseId ∉ gone ∧ ∃ request, a.Waits grant.leaseId request ∧
    grant.pools = request.pools ∧ grant.priority = request.priority
  nodup : (grants.map (·.leaseId)).Nodup

namespace Shifts

variable {gone gone' : List String} {grants grants' : List LeaseGrant}

/-- Every place is as it was. -/
theorem of_places (hheld : ∀ id, (b.held.get? id).map (·.grant) = (a.held.get? id).map (·.grant))
    (hpending : ∀ ticketId request, b.Waits ticketId request ↔ a.Waits ticketId request) :
    Shifts a b [] [] where
  holds leaseId grant := by
    rw [holds_iff, holds_iff, hheld]
    simp
  waits ticketId request := by
    rw [hpending]
    simp
  waited _ h := (nomatch h)
  nodup := List.nodup_nil

theorem trans (h : Shifts a b gone grants) (h' : Shifts b c gone' grants')
    (hkeep : ∀ grant ∈ grants, grant.leaseId ∉ gone') : Shifts a c (gone ++ gone') (grants ++ grants') where
  holds leaseId grant := by
    rw [h'.holds, h.holds]
    constructor
    · rintro (⟨⟨hold, hgone⟩ | ⟨hgrant, rfl⟩, hgone'⟩ | ⟨hgrant, rfl⟩)
      · exact .inl ⟨hold, by rw [List.mem_append]; exact not_or.mpr ⟨hgone, hgone'⟩⟩
      · exact .inr ⟨List.mem_append_left _ hgrant, rfl⟩
      · exact .inr ⟨List.mem_append_right _ hgrant, rfl⟩
    · rintro (⟨hold, hgone⟩ | ⟨hgrant, rfl⟩)
      · rw [List.mem_append, not_or] at hgone
        exact .inl ⟨.inl ⟨hold, hgone.1⟩, hgone.2⟩
      · rcases List.mem_append.mp hgrant with hgrant | hgrant
        · exact .inl ⟨.inr ⟨hgrant, rfl⟩, hkeep grant hgrant⟩
        · exact .inr ⟨hgrant, rfl⟩
  waits ticketId request := by
    rw [h'.waits, h.waits, List.map_append, List.mem_append, List.mem_append, not_or, not_or]
    constructor
    · rintro ⟨⟨hwaits, hgone, hgrants⟩, hgone', hgrants'⟩
      exact ⟨hwaits, ⟨hgone, hgone'⟩, hgrants, hgrants'⟩
    · rintro ⟨hwaits, ⟨hgone, hgone'⟩, hgrants, hgrants'⟩
      exact ⟨⟨hwaits, hgone, hgrants⟩, hgone', hgrants'⟩
  waited grant hgrant := by
    rw [List.mem_append, not_or]
    rcases List.mem_append.mp hgrant with hgrant | hgrant
    · obtain ⟨hgone, hrequest⟩ := h.waited grant hgrant
      exact ⟨⟨hgone, hkeep grant hgrant⟩, hrequest⟩
    · obtain ⟨hgone', request, hwaits, hpools, hpriority⟩ := h'.waited grant hgrant
      obtain ⟨hwaits, hgone, -⟩ := (h.waits _ _).mp hwaits
      exact ⟨⟨hgone, hgone'⟩, request, hwaits, hpools, hpriority⟩
  nodup := by
    rw [List.map_append]
    refine List.nodup_append.mpr ⟨h.nodup, h'.nodup, fun ticketId hfirst other hsecond heq => ?_⟩
    obtain ⟨grant, hgrant, rfl⟩ := List.mem_map.mp hsecond
    obtain ⟨-, request, hwaits, -⟩ := h'.waited grant hgrant
    exact ((h.waits _ _).mp hwaits).2.2 (heq ▸ hfirst)

/-- Nothing moves before. -/
theorem after (h : Shifts a b [] []) (h' : Shifts b c gone grants) : Shifts a c gone grants :=
  h.trans h' fun _ hgrant => (nomatch hgrant)

/-- Nothing more is taken away. -/
theorem then_grants (h : Shifts a b gone grants) (h' : Shifts b c [] grants') :
    Shifts a c gone (grants ++ grants') := by
  have htrans := h.trans h' fun _ _ => List.not_mem_nil
  rwa [List.append_nil] at htrans

theorem still (h : Shifts a b gone grants) (h' : Shifts b c [] []) : Shifts a c gone grants := by
  have htrans := h.then_grants h'
  rwa [List.append_nil] at htrans

end Shifts

/-! ## The moves -/

theorem waits_sortPending (engine : LeaseEngine) (now : Time) {ticketId : String}
    {request : LeaseRequest} :
    (engine.sortPending now).Waits ticketId request ↔ engine.Waits ticketId request := by
  constructor
  · rintro ⟨p, hp, rfl, rfl⟩
    obtain ⟨q, hq, rfl⟩ := mem_sortPending hp
    exact ⟨q, hq, rfl, rfl⟩
  · rintro ⟨q, hq, rfl, rfl⟩
    refine ⟨{ q with effectiveRank := effectiveRankAt q now engine.agingThreshold }, ?_, rfl, rfl⟩
    exact (perm_sortByKey _).mem_iff.mpr (List.mem_map_of_mem hq)

theorem waits_refreshAgedOrder (engine : LeaseEngine) (now : Time) {ticketId : String}
    {request : LeaseRequest} :
    (engine.refreshAgedOrder now).Waits ticketId request ↔ engine.Waits ticketId request := by
  rcases engine.refreshAgedOrder_cases now with hrefresh | hrefresh
  · rw [hrefresh]
    exact waits_sortPending engine now
  · rw [hrefresh]

theorem shifts_refreshAgedOrder (engine : LeaseEngine) (now : Time) :
    Shifts engine (engine.refreshAgedOrder now) [] [] :=
  .of_places (fun _ => by rw [refreshAgedOrder_held]) fun _ _ => waits_refreshAgedOrder engine now

theorem shifts_pruneOf (h : PruneOf now a b) : Shifts a b [] [] := by
  refine .of_places (fun _ => by rw [h.held_eq]) fun ticketId request => ?_
  rw [Waits, Waits, h.pending_eq]

theorem shifts_reconcile {result : Except LeaseError Unit}
    (h : (reconcileYieldDemands now).exec a = (result, b)) : Shifts a b [] [] := by
  refine .of_places (grant_reconcile h) fun ticketId request => ?_
  rw [Waits, (reconcile_pending h).1]
  exact waits_refreshAgedOrder a now

/-- What waits once one request has left the queue. -/
theorem waits_of_perm (ht : a.TicketInv) {p : PendingRequest} {rest : List PendingRequest}
    (hperm : (p :: rest).Perm a.pending) {ticketId : String} {request : LeaseRequest} :
    (∃ q ∈ rest, q.ticketId = ticketId ∧ q.request = request) ↔
      a.Waits ticketId request ∧ ticketId ≠ p.ticketId := by
  have hnodup : a.pendingIds.Nodup :=
    (List.nodup_append.mp (List.nodup_append.mp ht.nodup).1).2.1
  have hfresh : p.ticketId ∉ rest.map (·.ticketId) :=
    (List.nodup_cons.mp ((hperm.map _).nodup_iff.mpr hnodup)).1
  constructor
  · rintro ⟨q, hq, rfl, rfl⟩
    refine ⟨⟨q, hperm.mem_iff.mp (List.mem_cons_of_mem _ hq), rfl, rfl⟩, fun heq => ?_⟩
    exact hfresh (heq ▸ List.mem_map_of_mem hq)
  · rintro ⟨⟨q, hq, rfl, rfl⟩, hne⟩
    rcases List.mem_cons.mp (hperm.mem_iff.mpr hq) with rfl | hq
    · exact absurd rfl hne
    · exact ⟨q, hq, rfl, rfl⟩

theorem shifts_promoted (ht : a.TicketInv) {index : Nat} {p : PendingRequest}
    (h : a.pending[index]? = some p) :
    Shifts a (a.promoted index p now) [] [a.grantFor p.ticketId p.request now] where
  holds leaseId grant := by
    have hnone := ht.not_held (List.mem_of_getElem? h)
    rw [holds_iff]
    change ((a.held.insert p.ticketId _).get? leaseId).map (·.grant) = _ ↔ _
    rw [Dict.get?_insert, List.mem_singleton]
    split
    · next heq =>
      subst heq
      have hnot : ¬ a.Holds p.ticketId grant := by
        rintro ⟨held, hget, -⟩
        rw [hnone] at hget
        cases hget
      constructor
      · intro hgrant
        cases hgrant
        exact .inr ⟨rfl, rfl⟩
      · rintro (⟨hold, -⟩ | ⟨rfl, -⟩)
        · exact absurd hold hnot
        · rfl
    · next hne =>
      rw [← holds_iff]
      constructor
      · exact fun hold => .inl ⟨hold, List.not_mem_nil⟩
      · rintro (⟨hold, -⟩ | ⟨rfl, rfl⟩)
        · exact hold
        · exact absurd rfl hne
  waits ticketId request := by
    obtain ⟨hlt, hget⟩ := List.getElem?_eq_some_iff.mp h
    have hperm : (p :: a.pending.eraseIdx index).Perm a.pending := by
      rw [← hget]
      exact List.getElem_cons_eraseIdx_perm hlt
    rw [List.map_singleton, List.mem_singleton]
    refine (waits_of_perm ht hperm).trans ?_
    simp only [List.not_mem_nil, not_false_eq_true, true_and]
    rfl
  waited grant hgrant := by
    rw [List.mem_singleton.mp hgrant]
    exact ⟨List.not_mem_nil, p.request, ⟨p, List.mem_of_getElem? h, rfl, rfl⟩, rfl, rfl⟩
  nodup := List.nodup_singleton _

theorem shifts_finished (ht : a.TicketInv) {how : Finish} {leaseId : String} {held : HeldLease}
    (h : a.held.get? leaseId = some held) : Shifts a (a.finished how leaseId held) [leaseId] [] where
  holds id grant := by
    rw [holds_iff, grant_finished, ht.key _ _ h, List.mem_singleton, holds_iff]
    split
    · next heq => simp [heq]
    · next hne => simp [hne]
  waits ticketId request := by
    constructor
    · intro hwaits
      refine ⟨hwaits, ?_, List.not_mem_nil⟩
      rw [List.mem_singleton]
      rintro rfl
      exact Waits.not_holds ht hwaits ⟨held, h, rfl⟩
    · exact fun hwaits => hwaits.1
  waited _ h := (nomatch h)
  nodup := List.nodup_nil

theorem shifts_cancelled (ht : a.TicketInv) {ticketId : String}
    (h : a.pending.any (hasTicket ticketId) = true) : Shifts a (a.cancelled ticketId) [ticketId] [] where
  holds id grant := by
    obtain ⟨p, hp, hticket⟩ := List.any_eq_true.mp h
    obtain rfl : p.ticketId = ticketId := by simpa [hasTicket] using hticket
    have hgrants : ((a.cancelled p.ticketId).held.get? id).map (·.grant) = (a.held.get? id).map (·.grant) := by
      change ((a.held.mapVals _).get? id).map _ = _
      rw [Dict.get?_mapVals, Option.map_map]
      rfl
    rw [holds_iff, hgrants, ← holds_iff]
    constructor
    · intro hold
      refine .inl ⟨hold, ?_⟩
      rw [List.mem_singleton]
      rintro rfl
      exact Waits.not_holds ht ⟨p, hp, rfl, rfl⟩ hold
    · rintro (⟨hold, -⟩ | ⟨hgrant, -⟩)
      · exact hold
      · cases hgrant
  waits id request := by
    obtain ⟨q, hq, hany⟩ := List.any_eq_true.mp h
    obtain ⟨p, before, after, -, hp, hsplit, herase⟩ := List.exists_of_eraseP hq hany
    have hperm : (p :: a.pending.eraseP (hasTicket ticketId)).Perm a.pending := by
      rw [herase, hsplit]
      exact List.perm_middle.symm
    obtain rfl : p.ticketId = ticketId := by simpa [hasTicket] using hp
    refine (waits_of_perm ht hperm).trans ?_
    simp
  waited _ h := (nomatch h)
  nodup := List.nodup_nil

/-! ## The calls -/

theorem shifts_promoteLoop {rounds : Nat} {grants : List LeaseGrant} (ht : a.TicketInv)
    (h : (promoteLoop now rounds).exec a = (.ok grants, b)) : Shifts a b [] grants := by
  induction rounds generalizing a grants with
  | zero =>
    cases h
    exact .of_places (fun _ => rfl) fun _ _ => .rfl
  | succ rounds ih =>
    generalize hresult : (Except.ok grants : Except LeaseError (List LeaseGrant)) = result at h
    cases promoteLoop_round h with
    | failed => cases hresult
    | unlogged => cases hresult
    | done hp full =>
      cases hresult
      exact shifts_pruneOf hp
    | @granted mid index p rest _ hp select logged more =>
      cases rest with
      | error error => cases hresult
      | ok rest =>
        cases hresult
        have hmid : mid.TicketInv := Moves.ticketInv (hp.moves : Moves 0 now (fun _ => False) a mid) ht
        have hpromoted : (mid.promoted index p now).TicketInv :=
          (Move.promote select logged : Move 0 now (fun _ => False) mid _).ticketInv hmid
        exact (shifts_pruneOf hp).after ((shifts_promoted hmid select.get).then_grants (ih hpromoted more))

theorem shifts_promote {grants : List LeaseGrant} (ht : a.TicketInv)
    (h : (promote now).exec a = (.ok grants, b)) : Shifts a b [] grants := by
  rw [LeaseEngine.promote, Eff.exec_bind] at h
  simp only [Eff.exec_modify] at h
  rw [Eff.exec_bind] at h
  have hrefreshed := (Move.resort : Move 0 now (fun _ => False) a _).ticketInv ht
  exact (shifts_refreshAgedOrder a now).after (shifts_promoteLoop hrefreshed h)

/-- A lease that is released was held. -/
theorem shifts_releaseAt {leaseId : String} {epoch : Nat} {outcome : ReleaseOutcome} (ht : a.TicketInv)
    (h : (releaseAt leaseId epoch now).exec a = (.ok outcome, b)) :
    a.Holds leaseId outcome.released ∧ Shifts a b [leaseId] outcome.promoted := by
  rcases releaseAt_cases h with ⟨-, _, herror⟩ | ⟨held, hget, ⟨_, _, herror⟩ |
    ⟨grants, mid, hpromote, last, hrec, hresult⟩⟩
  · cases herror
  · cases herror
  cases last with
  | error error => cases hresult
  | ok =>
    cases hresult
    have hfinished := (Move.finish hget : Move 0 now (fun _ => False) a
      (a.finished .released leaseId held)).ticketInv ht
    refine ⟨⟨held, hget, rfl⟩, ?_⟩
    exact ((shifts_finished ht hget).then_grants (shifts_promote hfinished hpromote)).still
      (shifts_reconcile hrec)

theorem shifts_cancelPendingAt {ticketId : String} {epoch : Nat} (ht : a.TicketInv)
    (h : (cancelPendingAt ticketId epoch now).exec a = (.ok (), b)) : Shifts a b [ticketId] [] := by
  rcases cancelPendingAt_cases h with ⟨-, _, herror⟩ | ⟨hpending, rfl, -⟩
  · cases herror
  · exact shifts_cancelled ht hpending

/-- A ticket that waits can be cancelled. -/
theorem cancelPendingAt_of_waits {ticketId : String} {request : LeaseRequest}
    (h : a.Waits ticketId request) : ∃ b, (cancelPendingAt ticketId a.epoch now).exec a = (.ok (), b) := by
  obtain ⟨p, hp, rfl, -⟩ := h
  have hany : a.pending.any (hasTicket p.ticketId) = true :=
    List.any_eq_true.mpr ⟨p, hp, by simp [hasTicket]⟩
  refine ⟨a.cancelled p.ticketId, ?_⟩
  rw [cancelPendingAt, Eff.exec_bind, checkEpoch, Eff.exec_bind]
  simp only [Eff.exec_get]
  rw [if_pos trivial, Eff.exec_pure]
  simp only
  rw [Eff.exec_bind]
  simp only [Eff.exec_get]
  rw [if_pos hany]
  rfl

theorem shifts_planTick {result : Except LeaseError (List LeaseGrant)}
    (h : (planTick now).exec a = (result, b)) : Shifts a b [] [] := by
  obtain ⟨last, hrec, -⟩ := planTick_cases h
  exact shifts_reconcile hrec

/-- What `plan_tick` lists is held, below the priority of an interrupt, and each lease is listed once. -/
theorem holds_planned {grants : List LeaseGrant} (ht : a.TicketInv)
    (h : (planTick now).exec a = (.ok grants, b)) :
    (grants.map (·.leaseId)).Nodup ∧ ∀ grant ∈ grants, b.Holds grant.leaseId grant ∧
      grant.priority.rank < Priority.interrupt.rank := by
  obtain ⟨last, hrec, hgrants⟩ := planTick_cases h
  cases last with
  | error error => cases hgrants
  | ok =>
    cases hgrants
    have hb := Moves.ticketInv (reconcile_moves hrec : Moves 0 now (fun _ => False) a b) ht
    obtain ⟨hnodup, hdue⟩ := @planned_due b now hb.key
    refine ⟨hnodup, fun grant hgrant => ?_⟩
    obtain ⟨held, hget, rfl, hreclaim⟩ := hdue grant hgrant
    refine ⟨⟨held, hget, rfl⟩, ?_⟩
    -- a lease that is due has a demand, and the plan only asks leases below an interrupt
    rcases reconcile_spec hrec with ⟨_, hfailed, -⟩ | ⟨-, mid, deadline, hp, -, rfl⟩
    · cases hfailed
    obtain ⟨demand, hdemand, -⟩ := List.any_eq_true.mp hreclaim
    obtain ⟨ticketId, hticket⟩ := held.yieldDemands.mem_values_iff.mp hdemand
    obtain ⟨old, tickets, intent, hold, hgrant, htickets, hintent, -⟩ := reconciled_demand hget hticket
    have hmid := Moves.ticketInv ((Move.resort.moves.tail (.prune hp) : Moves 0 now (fun _ => False) a mid)) ht
    obtain ⟨victim, hvictim, hrank⟩ := (plan_ok hmid now _ _ htickets _ _ hintent).victim
    rw [hold] at hvictim
    cases hvictim
    rw [hgrant]
    exact hrank

theorem shifts_preemptEach {reclaimed : List String} {preempted : List LeaseGrant} (ht : a.TicketInv)
    (h : (preemptEach now reclaimed).exec a = (.ok preempted, b)) : Shifts a b reclaimed [] := by
  induction reclaimed generalizing a preempted with
  | nil =>
    cases h
    exact .of_places (fun _ => rfl) fun _ _ => .rfl
  | cons leaseId rest ih =>
    rcases preemptEach_cons h with ⟨-, _, herror⟩ | ⟨held, hget, -, more, hmore, hresult⟩
    · cases herror
    cases more with
    | error error => cases hresult
    | ok more =>
      have hfinished := (Move.finish hget : Move 0 now (fun _ => False) a
        (a.finished .preempted leaseId held)).ticketInv ht
      exact (shifts_finished ht hget).trans (ih hfinished hmore) fun _ hgrant => (nomatch hgrant)

theorem shifts_commitPreemptions {reclaimed : List String} {outcome : TickOutcome} (ht : a.TicketInv)
    (h : (commitPreemptions reclaimed now).exec a = (.ok outcome, b)) :
    Shifts a b reclaimed outcome.promoted := by
  rcases commitPreemptions_cases h with ⟨_, _, herror⟩ | ⟨c, hrec, ⟨_, _, herror⟩ |
    ⟨preempted, d, hpre, ⟨_, _, herror⟩ | ⟨grants, e, hpro, last, hlast, hresult⟩⟩⟩
  · cases herror
  · cases herror
  · cases herror
  cases last with
  | error error => cases hresult
  | ok =>
    cases hresult
    have hc := Moves.ticketInv (reconcile_moves hrec : Moves 0 now (fun _ => False) a c) ht
    have hd := Moves.ticketInv (preemptEach_moves hpre : Moves 0 now (fun _ => False) c d) hc
    exact ((shifts_reconcile hrec).after
      ((shifts_preemptEach hc hpre).then_grants (shifts_promote hd hpro))).still (shifts_reconcile hlast)

/-! ## Admission -/

/-- What an admission leaves: a lease or a ticket under a new name, or everything as it was. -/
inductive Admits (original : LeaseRequest) (a : LeaseEngine) :
    Except LeaseError AdmitOutcome → LeaseEngine → Prop
  | granted {b : LeaseEngine} {grant : LeaseGrant} (fresh : ¬ a.Issued grant.leaseId)
    (pools : grant.pools.Perm original.pools) (priority : grant.priority = original.priority)
    (holds : ∀ leaseId held, b.Holds leaseId held ↔
      a.Holds leaseId held ∨ (held = grant ∧ grant.leaseId = leaseId))
    (waits : ∀ ticketId request, b.Waits ticketId request ↔ a.Waits ticketId request) :
    Admits original a (.ok (.granted grant)) b
  | queued {b : LeaseEngine} {ticketId : String} {position : Nat} {own : LeaseRequest}
    (fresh : ¬ a.Issued ticketId) (pools : own.pools.Perm original.pools)
    (priority : own.priority = original.priority)
    (holds : ∀ leaseId grant, b.Holds leaseId grant ↔ a.Holds leaseId grant)
    (waits : ∀ id request, b.Waits id request ↔
      a.Waits id request ∨ (request = own ∧ ticketId = id)) :
    Admits original a (.ok (.queued ticketId position)) b
  | refused {b : LeaseEngine} {error : LeaseError}
    (holds : ∀ leaseId grant, b.Holds leaseId grant ↔ a.Holds leaseId grant)
    (waits : ∀ ticketId request, b.Waits ticketId request ↔ a.Waits ticketId request) :
    Admits original a (.error error) b

theorem waits_queued (engine : LeaseEngine) (own : LeaseRequest) (now : Time) {ticketId : String}
    {request : LeaseRequest} : (engine.queued own now).Waits ticketId request ↔
      engine.Waits ticketId request ∨ (request = own ∧ engine.nextTicket = ticketId) := by
  refine (waits_sortPending _ now).trans ?_
  constructor
  · rintro ⟨p, hp, rfl, rfl⟩
    rcases List.mem_append.mp hp with hp | hp
    · exact .inl ⟨p, hp, rfl, rfl⟩
    · rw [List.mem_singleton.mp hp]
      exact .inr ⟨rfl, rfl⟩
  · rintro (⟨p, hp, rfl, rfl⟩ | ⟨rfl, rfl⟩)
    · exact ⟨p, List.mem_append_left _ hp, rfl, rfl⟩
    · exact ⟨_, List.mem_append_right _ List.mem_cons_self, rfl, rfl⟩

theorem admitAt_places {original : LeaseRequest} {result : Except LeaseError AdmitOutcome}
    (ht : a.TicketInv) (h : (admitAt original now).exec a = (result, b)) : Admits original a result b := by
  have hopened : ∀ {request mid}, PruneOf now (a.opened request) mid → mid.held = a.held ∧
      mid.pending = a.pending ∧ mid.nextTicket = a.nextTicket := by
    intro request mid hp
    refine ⟨hp.held_eq, hp.pending_eq, ?_⟩
    rw [nextTicket, hp.epoch_eq, hp.nextSequence_eq]
    rfl
  have hperm : ∀ {request}, a.canonicalizeRequest original = .ok request →
      request.pools.Perm original.pools ∧ request.priority = original.priority := by
    intro request hrequest
    obtain ⟨pools, hpools, rfl, -⟩ := canonicalizeRequest_eq hrequest
    exact ⟨(Poolset.canonicalize_canonical hpools).2, rfl⟩
  cases admitAt_exit h with
  | invalid => exact .refused (fun _ _ => .rfl) fun _ _ => .rfl
  | overflow => exact .refused (fun _ _ => .rfl) fun _ _ => .rfl
  | failed _ _ hp =>
    obtain ⟨hheld, hpending, -⟩ := hopened hp
    refine .refused (fun _ _ => ?_) fun _ _ => ?_
    · rw [holds_iff, holds_iff, ← hheld]; rfl
    · rw [Waits, Waits, ← hpending]; rfl
  | unlogged _ _ hp =>
    obtain ⟨hheld, hpending, -⟩ := hopened hp
    refine .refused (fun _ _ => ?_) fun _ _ => ?_
    · rw [holds_iff, holds_iff, ← hheld]; rfl
    · rw [Waits, Waits, ← hpending]; rfl
  | @granted request mid hrequest _ hp =>
    obtain ⟨hheld, hpending, hticket⟩ := hopened hp
    refine .granted ?_ (hperm hrequest).1 (hperm hrequest).2 (fun leaseId grant => ?_) fun _ _ => ?_
    · change ¬ a.Issued mid.nextTicket
      rw [hticket]
      exact a.not_issued_nextTicket
    · have hnone := ht.nextTicket_not_held
      rw [holds_iff, holds_iff]
      change ((mid.held.insert mid.nextTicket _).get? leaseId).map (·.grant) = _ ↔
        _ ∨ (_ ∧ mid.nextTicket = leaseId)
      rw [Dict.get?_insert, hheld]
      split
      · next heq =>
        rw [heq, hticket, hnone]
        simp [eq_comm, grantFor]
      · next hne => simp [Ne.symm hne]
    · rw [Waits, Waits, ← hpending]; rfl
  | @queued request mid _ hrequest small hp _ _ reconcile =>
    obtain ⟨hheld, hpending, hticket⟩ := hopened hp
    have hshifts := shifts_reconcile reconcile
    refine .queued ?_ (hperm hrequest).1 (hperm hrequest).2 (fun leaseId grant => ?_) fun id own => ?_
    · rw [hticket]
      exact a.not_issued_nextTicket
    · rw [hshifts.holds, holds_iff, holds_iff]
      change ((mid.held.get? leaseId).map _ = _ ∧ _) ∨ _ ↔ _
      rw [hheld]
      simp
    · rw [hshifts.waits, waits_queued, Waits, hpending]
      simp only [List.not_mem_nil, List.map_nil, not_false_eq_true, and_true]
      rfl
  | @unqueued request error mid last hrequest small hp _ _ reconcile =>
    obtain ⟨hheld, hpending, hticket⟩ := hopened hp
    have hshifts := shifts_reconcile reconcile
    refine .refused (fun leaseId grant => ?_) fun id own => ?_
    · change last.Holds leaseId grant ↔ _
      rw [hshifts.holds, holds_iff, holds_iff]
      change ((mid.held.get? leaseId).map _ = _ ∧ _) ∨ _ ↔ _
      rw [hheld]
      simp
    · have hlast : last.Waits id own ↔ mid.Waits id own ∨ (own = request ∧ mid.nextTicket = id) := by
        rw [hshifts.waits, waits_queued]
        simp only [List.not_mem_nil, List.map_nil, not_false_eq_true, and_true]
      have hmid : mid.Waits id own ↔ a.Waits id own := by
        rw [Waits, Waits, hpending]
      rw [← hmid]
      constructor
      · rintro ⟨p, hp, rfl, rfl⟩
        obtain ⟨hp, hother⟩ := List.mem_filter.mp hp
        refine (hlast.mp ⟨p, hp, rfl, rfl⟩).resolve_right fun hown => ?_
        simp [hasTicket, hown.2] at hother
      · intro hwaits
        obtain ⟨p, hp, rfl, rfl⟩ := hlast.mpr (.inl hwaits)
        refine ⟨p, List.mem_filter.mpr ⟨hp, ?_⟩, rfl, rfl⟩
        have hne : p.ticketId ≠ mid.nextTicket := by
          intro heq
          rw [hticket] at heq
          exact a.not_issued_nextTicket (heq ▸ (hmid.mp hwaits).issued ht)
        simpa [hasTicket] using hne

/-! ## Every run -/

/-- In every run each call moves leases and tickets as its reply says: an admission adds the grant or
the ticket that it returns, a release takes the lease away, a cancellation the ticket, and a commit
what it has reclaimed; what they return as promoted was waiting and is held. A plan moves nothing. -/
theorem calls_move_leases {engine : LeaseEngine} (hstart : engine.Started) (ops : List Op) (now : Time) :
    (∀ request result after, (admitAt request now).exec (engine.run ops) = (result, after) →
      Admits request (engine.run ops) result after) ∧
    (∀ leaseId epoch outcome after,
      (releaseAt leaseId epoch now).exec (engine.run ops) = (.ok outcome, after) →
      (engine.run ops).Holds leaseId outcome.released ∧
        Shifts (engine.run ops) after [leaseId] outcome.promoted) ∧
    (∀ ticketId epoch after,
      (cancelPendingAt ticketId epoch now).exec (engine.run ops) = (.ok (), after) →
      Shifts (engine.run ops) after [ticketId] []) ∧
    (∀ ticketId request, (engine.run ops).Waits ticketId request →
      ∃ after, (cancelPendingAt ticketId (engine.run ops).epoch now).exec (engine.run ops) =
        (.ok (), after)) ∧
    (∀ grants after, (planTick now).exec (engine.run ops) = (.ok grants, after) →
      Shifts (engine.run ops) after [] [] ∧ (grants.map (·.leaseId)).Nodup ∧
        ∀ grant ∈ grants, after.Holds grant.leaseId grant ∧
          grant.priority.rank < Priority.interrupt.rank) ∧
    ∀ reclaimed outcome after,
      (commitPreemptions reclaimed now).exec (engine.run ops) = (.ok outcome, after) →
      Shifts (engine.run ops) after reclaimed outcome.promoted := by
  have ht := (hstart.orderly ops).tickets
  refine ⟨?admission, ?release, ?cancellation, ?waiting, ?plan, ?commit⟩
  case admission =>
    intro request result after h
    exact admitAt_places ht h
  case release =>
    intro leaseId epoch outcome after h
    exact shifts_releaseAt ht h
  case cancellation =>
    intro ticketId epoch after h
    exact shifts_cancelPendingAt ht h
  case waiting =>
    intro ticketId request h
    exact cancelPendingAt_of_waits h
  case plan =>
    intro grants after h
    obtain ⟨hnodup, hplanned⟩ := holds_planned ht h
    exact ⟨shifts_planTick h, hnodup, hplanned⟩
  case commit =>
    intro reclaimed outcome after h
    exact shifts_commitPreemptions ht h

/-- Of the two requests that wait for the one slot, the release promotes the older one. -/
theorem calls_move_leases_slot :
    ∃ outcome after,
      (releaseAt "lease-1-1" 1 3).exec ((slotEngine none).run conserveOps) = (.ok outcome, after) ∧
      ((slotEngine none).run conserveOps).Holds "lease-1-1" outcome.released ∧
      Shifts ((slotEngine none).run conserveOps) after ["lease-1-1"] outcome.promoted ∧
      outcome.promoted.map (·.leaseId) = ["lease-1-2"] := by
  have hreply : (((releaseAt "lease-1-1" 1 3).exec ((slotEngine none).run conserveOps)).1.toOption.map
      fun outcome => outcome.promoted.map (·.leaseId)) = some ["lease-1-2"] := by decide +kernel
  rcases hcall : (releaseAt "lease-1-1" 1 3).exec ((slotEngine none).run conserveOps) with
    ⟨error | outcome, after⟩
  · rw [hcall] at hreply
    cases hreply
  · rw [hcall] at hreply
    obtain ⟨-, hrelease, -⟩ := calls_move_leases (.new (slotEngine_new none)) conserveOps 3
    obtain ⟨hheld, hshifts⟩ := hrelease _ _ _ _ hcall
    exact ⟨outcome, after, rfl, hheld, hshifts, Option.some.inj hreply⟩

end Tally.Lease.LeaseEngine
