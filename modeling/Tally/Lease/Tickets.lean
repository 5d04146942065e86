import Tally.Lease.Calls

/-!
# Tickets are conserved

Where a ticket is: pending, held or finished. A move issues one fresh ticket, withdraws the ticket
of its own call, or moves tickets from one place to another; nothing else happens to them
(`Move.tickets`). So the tickets that `admitAt` has handed out stay accounted for on every run.
-/

namespace Tally.Lease

def TraceEntry.finishedId : TraceEntry → Option String
  | .finished _ ticketId => some ticketId
  | _ => none

namespace LeaseEngine

/-- The pending tickets, in queue order. -/
def pendingIds (engine : LeaseEngine) : List String := engine.pending.map (·.ticketId)

/-- The tickets that were released, preempted or cancelled, newest first. -/
def finishedIds (engine : LeaseEngine) : List String :=
  engine.trace.filterMap TraceEntry.finishedId

/-- Every ticket the engine accounts for. -/
def tickets (engine : LeaseEngine) : List String :=
  engine.held.keys ++ engine.pendingIds ++ engine.finishedIds

def Issued (engine : LeaseEngine) (ticketId : String) : Prop :=
  ∃ n, 0 < n ∧ n < engine.nextSequence ∧ ticketId = leaseTicket engine.epoch n

/-- Tickets are issued once, and a lease is filed under the ticket of its grant. -/
structure TicketInv (engine : LeaseEngine) : Prop where
  positive : 0 < engine.nextSequence
  nodup : engine.tickets.Nodup
  issued : ∀ t ∈ engine.tickets, engine.Issued t
  key : ∀ id held, engine.held.get? id = some held → held.grant.leaseId = id
  sequence : ∀ p ∈ engine.pending, p.ticketId = leaseTicket engine.epoch p.sequence

theorem not_issued_nextTicket (engine : LeaseEngine) : ¬ engine.Issued engine.nextTicket := by
  rintro ⟨n, -, hn, h⟩
  exact hn.ne (leaseTicket_inj.mp h).symm

/-! ## The queue under sorting -/

theorem perm_sortByKey (pending : List PendingRequest) : (sortByKey pending).Perm pending :=
  List.perm_insertionSort _ _

theorem pendingIds_sortPending (engine : LeaseEngine) (now : Time) :
    (engine.sortPending now).pendingIds.Perm engine.pendingIds := by
  refine ((perm_sortByKey _).map _).trans ?_
  rw [rerank, List.map_map]
  exact .refl _

theorem mem_sortPending {engine : LeaseEngine} {now : Time} {p : PendingRequest}
    (h : p ∈ (engine.sortPending now).pending) : ∃ q ∈ engine.pending,
      p = { q with effectiveRank := effectiveRankAt q now engine.agingThreshold } := by
  have h' := (perm_sortByKey _).mem_iff.mp h
  obtain ⟨q, hq, rfl⟩ := List.mem_map.mp h'
  exact ⟨q, hq, rfl⟩

theorem nextTicket_mem_queued (engine : LeaseEngine) {request : LeaseRequest} {now : Time} :
    engine.nextTicket ∈ (engine.queued request now).pendingIds :=
  (pendingIds_sortPending _ _).mem_iff.mpr (by simp [pendingIds])

/-- Re-sorting is sorting or nothing. -/
theorem refreshAgedOrder_cases (engine : LeaseEngine) (now : Time) :
    engine.refreshAgedOrder now = engine.sortPending now ∨
      engine.refreshAgedOrder now = engine := by
  unfold refreshAgedOrder
  split
  · exact .inl rfl
  · exact .inr rfl

/-! ## One move -/

/-- What a move can do to the tickets. -/
inductive TicketStep (base : Nat) (engine engine' : LeaseEngine) : Prop
  | same (next : engine'.nextSequence = engine.nextSequence ∨
      engine'.nextSequence = engine.nextSequence + 1)
    (perm : engine'.tickets.Perm engine.tickets)
  | issue (next : engine'.nextSequence = engine.nextSequence + 1)
    (perm : engine'.tickets.Perm (engine.nextTicket :: engine.tickets))
  | withdraw (sequence : Nat) (own : base ≤ sequence)
    (next : engine'.nextSequence = engine.nextSequence)
    (sub : engine'.tickets.Sublist engine.tickets)
    (rest : ∀ t ∈ engine.tickets, t ∈ engine'.tickets ∨ t = leaseTicket engine.epoch sequence)

theorem tickets_of_frame {engine engine' : LeaseEngine} (hheld : engine'.held.keys = engine.held.keys)
    (hpending : engine'.pendingIds = engine.pendingIds)
    (hfinished : engine'.finishedIds = engine.finishedIds) : engine'.tickets = engine.tickets := by
  rw [tickets, hheld, hpending, hfinished]; rfl

theorem mem_tickets {engine : LeaseEngine} {t : String} :
    t ∈ engine.tickets ↔ (∃ held, engine.held.get? t = some held) ∨
      (∃ p ∈ engine.pending, p.ticketId = t) ∨ t ∈ engine.finishedIds := by
  simp [tickets, pendingIds, Dict.mem_keys_iff]

/-- A grant under a ticket that is not held files it. -/
theorem keys_granted {engine : LeaseEngine} {ticketId : String} (request : LeaseRequest)
    (now : Time) (h : engine.held.get? ticketId = none) :
    (engine.granted ticketId request now).held.keys = ticketId :: engine.held.keys := by
  show (engine.held.insert ticketId _).keys = _
  rw [Dict.keys_insert, Dict.erase_eq_self _ h]

theorem eraseP_perm_cons {α : Type} {p : α → Bool} {l : List α} {a : α} (ha : a ∈ l) (hp : p a)
    (f : α → String) (hf : ∀ b, p b → f b = f a) :
    (l.map f).Perm (f a :: (l.eraseP p).map f) := by
  induction l with
  | nil => cases ha
  | cons b l ih =>
    by_cases hb : p b
    · simp [List.eraseP_cons_of_pos hb, hf b hb]
    · have hal : a ∈ l := by
        rcases List.mem_cons.mp ha with rfl | h
        · exact absurd hp hb
        · exact h
      rw [List.eraseP_cons_of_neg hb, List.map_cons, List.map_cons]
      exact ((ih hal).cons _).trans (.swap ..)


private theorem perm_pending (held pending finished : List String) (t : String) :
    (held ++ t :: pending ++ finished).Perm (t :: (held ++ pending ++ finished)) := by
  simp only [List.append_assoc, List.cons_append]
  exact List.perm_middle

theorem TicketInv.not_held {engine : LeaseEngine} (h : engine.TicketInv) {p : PendingRequest}
    (hp : p ∈ engine.pending) : engine.held.get? p.ticketId = none := by
  have hdisjoint := (List.nodup_append.mp (List.nodup_append.mp h.nodup).1).2.2
  cases hs : engine.held.get? p.ticketId with
  | none => rfl
  | some held =>
    exact absurd rfl (hdisjoint _ ((Dict.mem_keys_iff _).mpr ⟨held, hs⟩) _
      (List.mem_map_of_mem hp))

theorem TicketInv.nextTicket_not_mem {engine : LeaseEngine} (h : engine.TicketInv) :
    engine.nextTicket ∉ engine.tickets :=
  fun hmem => engine.not_issued_nextTicket (h.issued _ hmem)

theorem TicketInv.nextTicket_not_held {engine : LeaseEngine} (h : engine.TicketInv) :
    engine.held.get? engine.nextTicket = none := by
  cases hs : engine.held.get? engine.nextTicket with
  | none => rfl
  | some held => exact absurd (mem_tickets.mpr (.inl ⟨held, hs⟩)) h.nextTicket_not_mem

end LeaseEngine

open LeaseEngine

theorem Move.tickets {base : Nat} {now : Time} {own : LeaseRequest → Prop} {a b : LeaseEngine} (hmove : Move base now own a b)
    (h : a.TicketInv) : TicketStep base a b := by
  cases hmove with
  | prune hp =>
    refine .same (.inl hp.nextSequence_eq) (.of_eq (tickets_of_frame ?_ ?_ ?_))
    · rw [hp.held_eq]
    · rw [pendingIds, hp.pending_eq]; rfl
    · rw [finishedIds, hp.trace_eq]; rfl
  | openPool => exact .same (.inl rfl) (.refl _)
  | skip => exact .same (.inr rfl) (.refl _)
  | @grant request =>
    refine .issue rfl ?_
    show ((a.granted a.nextTicket request now).held.keys ++ a.pendingIds ++ a.finishedIds).Perm _
    rw [keys_granted _ _ h.nextTicket_not_held]
    exact .refl _
  | grantFailed => exact .same (.inr rfl) (.refl _)
  | queue =>
    refine .issue rfl ?_
    refine (((pendingIds_sortPending _ _).append_left a.held.keys).append_right a.finishedIds).trans
      ?_
    show (a.held.keys ++ (a.pending ++ [_]).map _ ++ a.finishedIds).Perm _
    rw [List.map_append, List.map_singleton, ← List.append_assoc]
    refine (List.Perm.append_right _ List.perm_append_comm).trans ?_
    exact .refl _
  | @withdraw sequence own =>
    refine .withdraw sequence own rfl ?_ fun t ht => ?_
    · exact (((List.filter_sublist.map _).append_left _).append_right _)
    · rw [mem_tickets] at ht ⊢
      rcases ht with hheld | ⟨p, hp, rfl⟩ | hfinished
      · exact .inl (.inl hheld)
      · by_cases hown : p.ticketId = leaseTicket a.epoch sequence
        · exact .inr hown
        · exact .inl (.inr (.inl ⟨p, List.mem_filter.mpr ⟨hp, by simpa [hasTicket] using hown⟩, rfl⟩))
      · exact .inl (.inr (.inr hfinished))
  | resort =>
    rcases a.refreshAgedOrder_cases now with hr | hr
    · rw [hr]
      exact .same (.inl rfl)
        (((a.pendingIds_sortPending now).append_left a.held.keys).append_right a.finishedIds)
    · rw [hr]
      exact .same (.inl rfl) (.refl _)
  | @promote index p select logged =>
    refine .same (.inl rfl) ?_
    obtain ⟨hlt, hget⟩ := List.getElem?_eq_some_iff.mp select.get
    have hperm : a.pendingIds.Perm (p.ticketId :: (a.pending.eraseIdx index).map (·.ticketId)) := by
      rw [← hget]
      exact ((List.getElem_cons_eraseIdx_perm hlt).map _).symm
    show ((a.granted p.ticketId p.request now).held.keys ++
      (a.pending.eraseIdx index).map (·.ticketId) ++ a.finishedIds).Perm _
    rw [keys_granted _ _ (h.not_held (List.mem_of_getElem? select.get))]
    refine .trans ?_ ((hperm.symm.append_left _).append_right _)
    exact (perm_pending ..).symm
  | promoteFailed => exact .same (.inl rfl) (.refl _)
  | @finish how leaseId held get =>
    refine .same (.inl rfl) ?_
    have hperm := a.held.keys_perm_cons_erase get
    rw [← h.key leaseId held get] at hperm
    show ((a.held.erase held.grant.leaseId).keys ++ a.pendingIds ++ leaseId :: a.finishedIds).Perm _
    refine List.perm_middle.trans ?_
    rw [← h.key leaseId held get]
    exact ((hperm.append_right _).append_right _).symm
  | reconcile ok =>
    refine .same (.inl rfl) (.of_eq (tickets_of_frame ?_ rfl rfl))
    exact Dict.keys_mapVals ..
  | @cancel ticketId pending =>
    refine .same (.inl rfl) ?_
    obtain ⟨p, hp, hticket⟩ := List.any_eq_true.mp pending
    have hid : ∀ q, hasTicket ticketId q → q.ticketId = ticketId := by simp [hasTicket]
    have hperm := eraseP_perm_cons hp hticket (·.ticketId) fun q hq => by rw [hid q hq, hid p hticket]
    rw [hid p hticket] at hperm
    have hkeys : (a.cancelled ticketId).held.keys = a.held.keys := Dict.keys_mapVals ..
    show ((a.cancelled ticketId).held.keys ++ (a.pending.eraseP (hasTicket ticketId)).map (·.ticketId)
      ++ ticketId :: a.finishedIds).Perm _
    rw [hkeys]
    refine List.perm_middle.trans (.trans ?_ ((hperm.symm.append_left _).append_right _))
    exact (perm_pending ..).symm

theorem LeaseEngine.TicketStep.inv {base : Nat} {a b : LeaseEngine} (hstep : TicketStep base a b)
    (h : a.TicketInv) (hepoch : b.epoch = a.epoch) :
    b.tickets.Nodup ∧ ∀ t ∈ b.tickets, b.Issued t := by
  have hmono : ∀ t, a.nextSequence ≤ b.nextSequence → a.Issued t → b.Issued t := by
    rintro t hle ⟨n, hpos, hn, rfl⟩
    exact ⟨n, hpos, hn.trans_le hle, by rw [hepoch]⟩
  cases hstep with
  | same next perm =>
    refine ⟨perm.nodup_iff.mpr h.nodup, fun t ht => hmono t (by omega) ?_⟩
    exact h.issued t (perm.mem_iff.mp ht)
  | issue next perm =>
    refine ⟨perm.nodup_iff.mpr (List.nodup_cons.mpr ⟨h.nextTicket_not_mem, h.nodup⟩), fun t ht => ?_⟩
    rcases List.mem_cons.mp (perm.mem_iff.mp ht) with rfl | ht
    · exact ⟨a.nextSequence, h.positive, by omega, by rw [hepoch]; rfl⟩
    · exact hmono t (by omega) (h.issued t ht)
  | withdraw _ _ next sub _ =>
    exact ⟨h.nodup.sublist sub, fun t ht => hmono t next.ge (h.issued t (sub.subset ht))⟩

theorem Move.nextSequence_le {base : Nat} {now : Time} {own : LeaseRequest → Prop} {a b : LeaseEngine}
    (hmove : Move base now own a b) : a.nextSequence ≤ b.nextSequence := by
  cases hmove with
  | prune hp => exact hp.nextSequence_eq.ge
  | resort =>
    rcases a.refreshAgedOrder_cases now with hr | hr <;> rw [hr]
    rfl
  | skip => exact Nat.le_succ _
  | grant => exact Nat.le_succ _
  | grantFailed => exact Nat.le_succ _
  | queue => exact Nat.le_succ _
  | _ => exact Nat.le_refl _

theorem Move.epoch_eq {base : Nat} {now : Time} {own : LeaseRequest → Prop} {a b : LeaseEngine} (hmove : Move base now own a b) :
    b.epoch = a.epoch := by
  cases hmove with
  | prune hp => exact hp.epoch_eq
  | resort =>
    rcases a.refreshAgedOrder_cases now with hr | hr <;> rw [hr]
    rfl
  | _ => rfl

/-- Every lease of the engine after a move was there before, with the same grant, or is the one
that the move grants. -/
theorem Move.held_cases {base : Nat} {now : Time} {own : LeaseRequest → Prop} {a b : LeaseEngine} (hmove : Move base now own a b)
    {id : String} {held : HeldLease} (h : b.held.get? id = some held) :
    (∃ old, a.held.get? id = some old ∧ old.grant = held.grant) ∨
      ∃ request, held.grant = a.grantFor id request now ∧ a.Fits request now ∧
        (a.Admissible request ∨ ∃ p ∈ a.pending, p.request = request) ∧
        b.debitedAdmissions = (a.granted id request now).debitedAdmissions := by
  cases hmove with
  | prune hp => exact .inl ⟨held, hp.held_eq ▸ h, rfl⟩
  | resort =>
    rcases a.refreshAgedOrder_cases now with hr | hr <;> rw [hr] at h
    · exact .inl ⟨held, h, rfl⟩
    · exact .inl ⟨held, h, rfl⟩
  | @grant request _ _ ok fits =>
    change (a.held.insert a.nextTicket _).get? id = _ at h
    rw [Dict.get?_insert] at h
    split at h
    · next hid => cases h; subst hid; exact .inr ⟨request, rfl, fits, .inl ok, rfl⟩
    · exact .inl ⟨held, h, rfl⟩
  | @promote _ p select =>
    change (a.held.insert p.ticketId _).get? id = _ at h
    rw [Dict.get?_insert] at h
    split at h
    · next hid =>
      cases h
      subst hid
      exact .inr ⟨p.request, rfl, select.fits, .inr ⟨p, List.mem_of_getElem? select.get, rfl⟩, rfl⟩
    · exact .inl ⟨held, h, rfl⟩
  | finish =>
    change (a.held.erase _).get? id = _ at h
    rw [Dict.get?_erase] at h
    split at h
    · cases h
    · exact .inl ⟨held, h, rfl⟩
  | reconcile =>
    change (a.held.mapVals _).get? id = _ at h
    rw [Dict.get?_mapVals, Option.map_eq_some_iff] at h
    obtain ⟨old, hold, rfl⟩ := h
    exact .inl ⟨old, hold, rfl⟩
  | cancel =>
    change (a.held.mapVals _).get? id = _ at h
    rw [Dict.get?_mapVals, Option.map_eq_some_iff] at h
    obtain ⟨old, hold, rfl⟩ := h
    exact .inl ⟨old, hold, rfl⟩
  | _ => exact .inl ⟨held, h, rfl⟩

/-- Every pending request after a move was pending before, up to its rank, or is the one that the
move queues. -/
theorem Move.pending_cases {base : Nat} {now : Time} {own : LeaseRequest → Prop} {a b : LeaseEngine}
    (hmove : Move base now own a b) {p : PendingRequest} (h : p ∈ b.pending) :
    (∃ q ∈ a.pending, ∃ rank, p = { q with effectiveRank := rank }) ∨
      p.ticketId = a.nextTicket ∧ p.sequence = a.nextSequence ∧ p.admittedAt = now ∧
        a.Admissible p.request := by
  have hold : p ∈ a.pending → ∃ q ∈ a.pending, ∃ rank, p = { q with effectiveRank := rank } :=
    fun hp => ⟨p, hp, p.effectiveRank, rfl⟩
  cases hmove with
  | prune hp => exact .inl (hold (hp.pending_eq ▸ h))
  | resort =>
    rcases a.refreshAgedOrder_cases now with hr | hr <;> rw [hr] at h
    · obtain ⟨q, hq, rfl⟩ := mem_sortPending h
      exact .inl ⟨q, hq, _, rfl⟩
    · exact .inl (hold h)
  | queue _ _ ok =>
    obtain ⟨q, hq, rfl⟩ := mem_sortPending h
    rcases List.mem_append.mp hq with hq | hq
    · exact .inl ⟨q, hq, _, rfl⟩
    · rw [List.mem_singleton] at hq
      subst hq
      exact .inr ⟨rfl, rfl, rfl, ok⟩
  | withdraw => exact .inl (hold (List.mem_of_mem_filter h))
  | promote => exact .inl (hold (List.mem_of_mem_eraseIdx h))
  | cancel => exact .inl (hold (List.mem_of_mem_eraseP h))
  | _ => exact .inl (hold h)

/-- No ticket that was issued before comes back to the queue. -/
theorem Move.mem_pendingIds {base : Nat} {now : Time} {own : LeaseRequest → Prop}
    {a b : LeaseEngine} (hmove : Move base now own a b) {t : String} (hissued : a.Issued t)
    (ht : t ∈ b.pendingIds) : t ∈ a.pendingIds := by
  obtain ⟨p, hp, rfl⟩ := List.mem_map.mp ht
  rcases hmove.pending_cases hp with ⟨q, hq, rank, rfl⟩ | ⟨hticket, -⟩
  · exact List.mem_map.mpr ⟨q, hq, rfl⟩
  · rw [hticket] at hissued
    exact absurd hissued a.not_issued_nextTicket

theorem Move.ticketInv {base : Nat} {now : Time} {own : LeaseRequest → Prop} {a b : LeaseEngine} (hmove : Move base now own a b)
    (h : a.TicketInv) : b.TicketInv := by
  obtain ⟨hnodup, hissued⟩ := (hmove.tickets h).inv h hmove.epoch_eq
  refine ⟨h.positive.trans_le hmove.nextSequence_le, hnodup, hissued, fun id held hs => ?_,
    fun p hp => ?_⟩
  · rcases hmove.held_cases hs with ⟨old, hold, hgrant⟩ | ⟨request, hgrant, _⟩
    · rw [← hgrant]
      exact h.key id old hold
    · rw [hgrant]; rfl
  · rw [hmove.epoch_eq]
    rcases hmove.pending_cases hp with ⟨q, hq, rank, rfl⟩ | ⟨hticket, hseq, -⟩
    · exact h.sequence q hq
    · rw [hticket, hseq]; rfl

/-! ## Whole runs -/

theorem Moves.ticketInv {base : Nat} {now : Time} {own : LeaseRequest → Prop} {a b : LeaseEngine} (hmoves : Moves base now own a b)
    (h : a.TicketInv) : b.TicketInv :=
  hmoves.invariant Move.ticketInv h

/-- A call loses no ticket that was issued before it. -/
theorem Moves.mem_tickets {base : Nat} {now : Time} {own : LeaseRequest → Prop} {a b : LeaseEngine}
    (hmoves : Moves base now own a b) (h : a.TicketInv) (hbase : a.nextSequence ≤ base) {t : String}
    (ht : t ∈ a.tickets) : t ∈ b.tickets := by
  suffices hall : b.TicketInv ∧ b.epoch = a.epoch ∧ t ∈ b.tickets from hall.2.2
  induction hmoves with
  | refl => exact ⟨h, rfl, ht⟩
  | @tail b c _ hmove ih =>
    obtain ⟨hinv, hepoch, hmem⟩ := ih
    refine ⟨hmove.ticketInv hinv, hmove.epoch_eq.trans hepoch, ?_⟩
    cases hmove.tickets hinv with
    | same _ perm => exact perm.mem_iff.mpr hmem
    | issue _ perm => exact perm.mem_iff.mpr (List.mem_cons_of_mem _ hmem)
    | withdraw sequence own _ _ rest =>
      refine (rest t hmem).resolve_right fun hown => ?_
      -- the withdrawn number is not below `base`, that of an earlier ticket is
      obtain ⟨n, -, hn, hn'⟩ := h.issued t ht
      rw [hown, hepoch] at hn'
      have := leaseTicket_inj.mp hn'
      omega

theorem Moves.issued {base : Nat} {now : Time} {own : LeaseRequest → Prop} {a b : LeaseEngine} (hmoves : Moves base now own a b)
    {t : String} (h : a.Issued t) : b.Issued t := by
  refine hmoves.invariant (P := fun engine => engine.Issued t) ?_ h
  rintro a b hmove ⟨n, hpos, hn, rfl⟩
  exact ⟨n, hpos, hn.trans_le hmove.nextSequence_le, by rw [hmove.epoch_eq]⟩

/-- A ticket that waits after a call has waited before it, unless the call issued it. -/
theorem Moves.mem_pendingIds {base : Nat} {now : Time} {own : LeaseRequest → Prop}
    {a b : LeaseEngine} (hmoves : Moves base now own a b) {t : String} (h : a.Issued t)
    (ht : t ∈ b.pendingIds) : t ∈ a.pendingIds := by
  induction hmoves with
  | refl => exact ht
  | tail hmoves hmove ih => exact ih (hmove.mem_pendingIds (Moves.issued hmoves h) ht)

def AdmitOutcome.ticket : AdmitOutcome → String
  | .granted grant => grant.leaseId
  | .queued ticketId _ => ticketId

/-- An admission returns the next ticket, and the engine accounts for it. -/
theorem LeaseEngine.admitAt_ticket {request : LeaseRequest} {now : Time}
    {engine engine' : LeaseEngine} {outcome : AdmitOutcome}
    (h : (admitAt request now).exec engine = (.ok outcome, engine')) (hinv : engine.TicketInv) :
    outcome.ticket = engine.nextTicket ∧ outcome.ticket ∈ engine'.tickets := by
  generalize hr : (Except.ok outcome : Except LeaseError AdmitOutcome) = result at h
  have hnext : ∀ {request mid}, PruneOf now (engine.opened request) mid →
      mid.nextTicket = engine.nextTicket := fun hp => by
    rw [nextTicket, hp.epoch_eq, hp.nextSequence_eq]; rfl
  cases admitAt_exit h with
  | invalid => cases hr
  | overflow => cases hr
  | failed => cases hr
  | unlogged => cases hr
  | unqueued => cases hr
  | granted _ _ hp _ _ _ _ =>
    cases hr
    exact ⟨hnext hp, LeaseEngine.mem_tickets.mpr (.inl ⟨_, Dict.get?_insert_self ..⟩)⟩
  | @queued request mid _ _ small hp ok full reconcile =>
    cases hr
    refine ⟨hnext hp, ?_⟩
    have hsmall : mid.nextSequence + 1 ≤ u64Max := by
      rw [hp.nextSequence_eq]
      exact small
    have hqueue : Moves 0 now (fun _ => True) engine (mid.queued request now) :=
      ((foldl_openCampaignPool_moves request.pools engine).tail (.prune hp)).tail
        (.queue trivial hsmall ok full)
    have hreconcile : Moves (mid.queued request now).nextSequence now (fun _ => False)
      (mid.queued request now) engine' := reconcile_moves reconcile
    refine hreconcile.mem_tickets (hqueue.ticketInv hinv) (Nat.le_refl _) ?_
    exact List.mem_append_left _ (List.mem_append_right _ mid.nextTicket_mem_queued)

/-- The tickets that a reply hands out. -/
def Op.returned : Except LeaseError Op.Reply → List String
  | .ok (.admitted outcome) => [outcome.ticket]
  | _ => []

/-- The tickets that the admissions of a run have returned, in order. -/
def LeaseEngine.returned (engine : LeaseEngine) : List Op → List String
  | [] => []
  | op :: ops => Op.returned (op.exec engine).1 ++ (op.exec engine).2.returned ops

theorem Op.returned_cases (op : Op) {engine : LeaseEngine} (hinv : engine.TicketInv) :
    Op.returned (op.exec engine).1 = [] ∨
      Op.returned (op.exec engine).1 = [engine.nextTicket] ∧
        engine.nextTicket ∈ (op.exec engine).2.tickets := by
  rcases h : op.exec engine with ⟨result, engine'⟩
  unfold Op.exec at h
  cases op with
  | admitAt request now =>
    obtain ⟨outcome, hadmitted, rfl⟩ := exec_map h
    cases outcome with
    | error error => exact .inl rfl
    | ok outcome =>
      obtain ⟨hticket, hmem⟩ := admitAt_ticket hadmitted hinv
      rw [hticket] at hmem
      exact .inr ⟨congrArg (fun t => [t]) hticket, hmem⟩
  | _ =>
    obtain ⟨result, h, rfl⟩ := exec_map h
    cases result <;> exact .inl rfl

theorem LeaseEngine.run_ticketInv {engine : LeaseEngine} (h : engine.TicketInv) (ops : List Op) :
    (engine.run ops).TicketInv :=
  run_invariant Move.ticketInv h ops

theorem LeaseEngine.run_mem_tickets {engine : LeaseEngine} (h : engine.TicketInv) (ops : List Op)
    {t : String} (ht : t ∈ engine.tickets) : t ∈ (engine.run ops).tickets := by
  induction ops generalizing engine with
  | nil => exact ht
  | cons op ops ih =>
    have hmoves := op.exec_moves engine
    exact ih (hmoves.ticketInv h) (hmoves.mem_tickets h (Nat.le_refl _) ht)

/-- The returned tickets are distinct, new, and all accounted for at the end. -/
theorem LeaseEngine.run_returned {engine : LeaseEngine} (h : engine.TicketInv) (ops : List Op) :
    (engine.returned ops).Nodup ∧ (∀ t ∈ engine.returned ops, ¬ engine.Issued t) ∧
      ∀ t ∈ engine.returned ops, t ∈ (engine.run ops).tickets := by
  induction ops generalizing engine with
  | nil => simp [returned]
  | cons op ops ih =>
    have hmoves := op.exec_moves engine
    have hinv := hmoves.ticketInv h
    obtain ⟨hnodup, hnew, hmem⟩ := ih hinv
    have hnew' : ∀ t ∈ (op.exec engine).2.returned ops, ¬ engine.Issued t :=
      fun t ht hissued => hnew t ht (hmoves.issued hissued)
    rw [returned, run_cons]
    rcases op.returned_cases h with hreturned | ⟨hreturned, hticket⟩
    · rw [hreturned]
      exact ⟨hnodup, hnew', hmem⟩
    · rw [hreturned]
      refine ⟨List.nodup_cons.mpr ⟨fun ht => hnew _ ht (hinv.issued _ hticket), hnodup⟩, ?_, ?_⟩
      · rintro t (_ | ⟨_, ht⟩)
        · exact engine.not_issued_nextTicket
        · exact hnew' t ht
      · rintro t (_ | ⟨_, ht⟩)
        · exact run_mem_tickets hinv ops hticket
        · exact hmem t ht

end Tally.Lease
