import Tally.Lease.Ledger

/-!
# Work conservation

A queue is `Starved` when none of its requests fits. Granting more and dropping demands keep it so;
what can end it is a lease that is given back, and every call that gives one back promotes until the
queue is starved again. Between the calls only a window budget that comes back can end it. So an
engine without windowed pools leaves no capacity idle (`co_residency_conserves_work`), and an
admission that is granted overtakes nobody unless a budget has come back since the last call, a call
has failed halfway, or a pending request shares the admission key (`grant_overtakes_nobody`).
-/

namespace Tally.Lease

namespace LeaseEngine

/-- No pending request fits. -/
def Starved (engine : LeaseEngine) (now : Time) : Prop :=
  ∀ q ∈ engine.pending, ¬ engine.Fits q.request now

/-- Every pool of `a` is still there in `b`, with its holders and its debits. -/
def Fuller (a b : LeaseEngine) : Prop :=
  ∀ pool state, a.pools.get? pool = some state → ∃ state', b.pools.get? pool = some state' ∧
    state'.config = state.config ∧ state.holders ⊆ state'.holders ∧ state.debits <+: state'.debits

/-! ## Re-sorting changes the queue alone -/

section Resort

variable (engine : LeaseEngine) (now : Time)

theorem refreshAgedOrder_frame : engine.refreshAgedOrder now =
    { engine with pending := (engine.refreshAgedOrder now).pending } := by
  unfold refreshAgedOrder
  split <;> rfl

@[simp] theorem refreshAgedOrder_pools : (engine.refreshAgedOrder now).pools = engine.pools := by
  rw [refreshAgedOrder_frame]

@[simp] theorem refreshAgedOrder_held : (engine.refreshAgedOrder now).held = engine.held := by
  rw [refreshAgedOrder_frame]

@[simp] theorem refreshAgedOrder_debitedAdmissions :
    (engine.refreshAgedOrder now).debitedAdmissions = engine.debitedAdmissions := by
  rw [refreshAgedOrder_frame]

@[simp] theorem refreshAgedOrder_agingThreshold :
    (engine.refreshAgedOrder now).agingThreshold = engine.agingThreshold := by
  rw [refreshAgedOrder_frame]

end Resort

/-! ## What makes a pool refuse -/

theorem dropWhile_append_sublist {α : Type} (p : α → Bool) (l more : List α) :
    (l.dropWhile p).Sublist ((l ++ more).dropWhile p) := by
  induction l with
  | nil => exact List.nil_sublist _
  | cons a l ih =>
    by_cases ha : p a
    · simpa [ha] using ih
    · simp [ha]

/-- A condition that drops less leaves more. -/
theorem dropWhile_sublist_of_imp {α : Type} {p q : α → Bool} {l : List α}
    (h : ∀ a ∈ l, p a → q a) : (l.dropWhile q).Sublist (l.dropWhile p) := by
  induction l with
  | nil => exact .slnil
  | cons a l ih =>
    by_cases hp : p a
    · have hq := h a List.mem_cons_self hp
      simpa [hp, hq] using ih fun b hb => h b (List.mem_cons_of_mem _ hb)
    · rw [List.dropWhile_cons_of_neg hp]
      exact List.dropWhile_sublist _

/-- A pool that takes a request would also take it with fewer holders and fewer debits. -/
theorem takes_of_fuller {state state' : RuntimePool} {request : LeaseRequest} {now : Time}
    (hconfig : state'.config = state.config) (hholders : state.holders ⊆ state'.holders)
    (hdebits : state.debits <+: state'.debits) (h : state'.Takes request now) :
    state.Takes request now := by
  cases hpredicate : state.config.predicate with
  | coResidency =>
    have hcard := Finset.card_le_card hholders
    rw [RuntimePool.takes_coResidency (hconfig ▸ hpredicate), hconfig] at h
    rw [RuntimePool.takes_coResidency hpredicate]
    omega
  | windowedConsumption window =>
    rw [RuntimePool.takes_windowed (hconfig ▸ hpredicate)] at h
    rw [RuntimePool.takes_windowed hpredicate]
    obtain ⟨more, hmore⟩ := hdebits
    have hle := usageOf_le_of_sublist (dropWhile_append_sublist
      (expired (window.windowSec * nanosPerSec) now) state.debits more)
    rw [hmore] at hle
    exact ⟨h.1, by omega⟩

theorem effectiveRequest_eq {a b : LeaseEngine} {request : LeaseRequest}
    (h : b.alreadyDebited request.admissionKey = a.alreadyDebited request.admissionKey) :
    b.effectiveRequest request = a.effectiveRequest request := by
  rw [effectiveRequest, effectiveRequest, h]

theorem Fits.of_fuller {a b : LeaseEngine} {request : LeaseRequest} {now : Time}
    (hfuller : Fuller a b) (hopen : ∀ pool ∈ request.pools, ∃ state, a.pools.get? pool = some state)
    (hkey : b.alreadyDebited request.admissionKey = a.alreadyDebited request.admissionKey)
    (h : b.Fits request now) : a.Fits request now := by
  intro pool hpool
  obtain ⟨state, hs⟩ := hopen pool hpool
  obtain ⟨state', hs', hconfig, hholders, hdebits⟩ := hfuller pool state hs
  obtain ⟨state'', hs'', htakes⟩ := h pool hpool
  rw [hs'] at hs''
  cases hs''
  rw [effectiveRequest_eq hkey] at htakes
  exact ⟨state, hs, takes_of_fuller hconfig hholders hdebits htakes⟩

/-! ## What keeps the queue starved -/

theorem Fuller.granted (engine : LeaseEngine) (ticketId : String) (request : LeaseRequest)
    (now : Time) : Fuller engine (engine.granted ticketId request now) := by
  intro pool state hs
  have hget := get?_pools_granted engine ticketId request now pool
  rw [hs] at hget
  refine ⟨_, hget, rfl, ?_, List.prefix_append _ _⟩
  dsimp only
  split
  · exact Finset.subset_insert _ _
  · exact subset_rfl

theorem Fuller.opened (engine : LeaseEngine) (request : LeaseRequest) :
    Fuller engine (engine.opened request) :=
  fun _ state hs =>
    ⟨state, get?_foldl_openCampaignPool_of_some hs, rfl, subset_rfl, List.prefix_rfl⟩

variable {a b : LeaseEngine} {now : Time}

theorem Starved.of_fuller (h : a.Starved now) (hok : a.QueueOk) (hfuller : Fuller a b)
    (hpending : ∀ q ∈ b.pending, ∃ p ∈ a.pending, p.request = q.request)
    (hkeys : ∀ p ∈ a.pending, b.alreadyDebited p.request.admissionKey =
      a.alreadyDebited p.request.admissionKey) : b.Starved now := by
  intro q hq hfits
  obtain ⟨p, hp, hrequest⟩ := hpending q hq
  rw [← hrequest] at hfits
  exact h p hp (hfits.of_fuller hfuller (hok p hp).pools (hkeys p hp))

/-- The pools and the debited admissions are what counts. -/
theorem Starved.of_frame (h : a.Starved now) (hpools : b.pools = a.pools)
    (hdebited : b.debitedAdmissions = a.debitedAdmissions)
    (hpending : ∀ q ∈ b.pending, ∃ p ∈ a.pending, p.request = q.request) : b.Starved now := by
  intro q hq hfits
  obtain ⟨p, hp, hrequest⟩ := hpending q hq
  rw [← hrequest] at hfits
  refine h p hp fun pool hpool => ?_
  have heffective : b.effectiveRequest p.request = a.effectiveRequest p.request :=
    effectiveRequest_eq (by unfold alreadyDebited; rw [hdebited])
  rw [← hpools, ← heffective]
  exact hfits pool hpool

theorem Starved.pruneOf (h : a.Starved now) (hp : PruneOf now a b) : b.Starved now := by
  intro q hq
  rw [fits_pruneOf hp]
  exact h q (hp.pending_eq ▸ hq)

theorem request_of_mem_refreshAgedOrder {engine : LeaseEngine} {q : PendingRequest}
    (hq : q ∈ (engine.refreshAgedOrder now).pending) :
    ∃ p ∈ engine.pending, p.request = q.request := by
  rcases engine.refreshAgedOrder_cases now with hr | hr
  · rw [hr] at hq
    obtain ⟨p, hp, rfl⟩ := mem_sortPending hq
    exact ⟨p, hp, rfl⟩
  · rw [hr] at hq
    exact ⟨q, hq, rfl⟩

theorem Starved.refreshAgedOrder (h : a.Starved now) : (a.refreshAgedOrder now).Starved now :=
  h.of_frame (refreshAgedOrder_pools a now) (refreshAgedOrder_debitedAdmissions a now)
    fun _ hq => request_of_mem_refreshAgedOrder hq

theorem Starved.reconcile {result : Except LeaseError Unit} (h : a.Starved now)
    (hrec : (reconcileYieldDemands now).exec a = (result, b)) : b.Starved now := by
  rcases reconcile_spec hrec with ⟨_, _, hp⟩ | ⟨_, mid, deadline, hp, _, rfl⟩
  · exact h.refreshAgedOrder.pruneOf hp
  · exact (h.refreshAgedOrder.pruneOf hp).of_frame rfl rfl fun q hq => ⟨q, hq, rfl⟩

/-- Where nothing fits, there is nothing to promote. -/
theorem Starved.promote {result : Except LeaseError (List LeaseGrant)} (h : a.Starved now)
    (hpro : (promote now).exec a = (result, b)) : b.Starved now := by
  rw [LeaseEngine.promote, Eff.exec_bind] at hpro
  simp only [Eff.exec_modify] at hpro
  rw [Eff.exec_bind] at hpro
  simp only [Eff.exec_get] at hpro
  have hfresh := h.refreshAgedOrder
  cases hlength : (a.refreshAgedOrder now).pending.length with
  | zero =>
    rw [hlength] at hpro
    cases hpro
    exact hfresh
  | succ rounds =>
    rw [hlength] at hpro
    have hnone : ∀ {mid index p}, PruneOf now (a.refreshAgedOrder now) mid →
        ¬ mid.FirstFit now index p := fun hp hselect =>
      hfresh.pruneOf hp _ (List.mem_of_getElem? hselect.get) hselect.fits
    cases promoteLoop_round hpro with
    | failed hp => exact hfresh.pruneOf hp
    | done hp => exact hfresh.pruneOf hp
    | unlogged hp hselect => exact absurd hselect (hnone hp)
    | granted hp hselect => exact absurd hselect (hnone hp)

/-! ## Admissions -/

/-- No pool has a window budget. -/
def CoResident (engine : LeaseEngine) : Prop :=
  ∀ pool state, engine.pools.get? pool = some state → state.config.predicate = .coResidency

/-- No pending request carries the admission key of this one. -/
def FreshKey (engine : LeaseEngine) (request : LeaseRequest) : Prop :=
  ∀ q ∈ engine.pending, ∀ key ∈ request.admissionKey, q.request.admissionKey ≠ some key

theorem CoResident.debitsFor_eq (h : a.CoResident) (request : LeaseRequest) :
    a.debitsFor request now = [] := by
  rw [List.eq_nil_iff_forall_not_mem]
  intro debit hdebit
  obtain ⟨-, -, hwindowed, -⟩ := mem_debitsFor hdebit
  obtain ⟨state, window, hs, hwindow⟩ := isWindowedPool_iff.mp hwindowed
  rw [h _ state hs] at hwindow
  cases hwindow

/-- A grant makes nothing cheaper for a request with another key, or where no budget is charged. -/
theorem alreadyDebited_granted {ticketId : String} {request : LeaseRequest} {key : Option String}
    (h : a.CoResident ∨ ∀ k, request.admissionKey = some k → key ≠ some k) :
    (a.granted ticketId request now).alreadyDebited key = a.alreadyDebited key := by
  unfold alreadyDebited
  rw [debitedAdmissions_granted]
  cases key with
  | none => rfl
  | some key =>
    rcases h with hco | hother
    · rw [hco.debitsFor_eq]
      rfl
    · unfold chargedKey
      cases (a.debitsFor request now).isEmpty with
      | true => rfl
      | false =>
        change decide (key ∈ request.admissionKey.elim a.debitedAdmissions
          (insert · a.debitedAdmissions)) = _
        cases hkey : request.admissionKey with
        | none => rfl
        | some k =>
          have hne : key ≠ k := fun heq => hother k hkey (congrArg some heq)
          simp [hne]

theorem Starved.granted (h : a.Starved now) (hok : a.QueueOk) {ticketId : String}
    {request : LeaseRequest} (hkeys : a.CoResident ∨ a.FreshKey request) :
    (a.granted ticketId request now).Starved now := by
  refine h.of_fuller hok (.granted a ticketId request now) (fun q hq => ⟨q, hq, rfl⟩) ?_
  intro p hp
  exact alreadyDebited_granted (hkeys.imp_right fun hfresh => hfresh p hp)

theorem Starved.queued (h : a.Starved now) {request : LeaseRequest}
    (hfull : ¬ a.Fits request now) : (a.queued request now).Starved now := by
  intro q hq hfits
  obtain ⟨p, hp, rfl⟩ := mem_sortPending hq
  change a.Fits p.request now at hfits
  rcases List.mem_append.mp hp with hp | hp
  · exact h p hp hfits
  · rw [List.mem_singleton] at hp
    subst hp
    exact hfull hfits

end LeaseEngine

open LeaseEngine

/-- Campaign pools are the only ones that are opened, and they have no budget. -/
theorem Move.coResident {base : Nat} {now : Time} {own : LeaseRequest → Prop} {a b : LeaseEngine}
    (hmove : Move base now own a b) (h : a.CoResident) : b.CoResident := by
  intro pool state hs
  have hmap : ∀ {f : RuntimePool → RuntimePool}, b.pools.get? pool = (a.pools.get? pool).map f →
      (∀ s, (f s).config = s.config) → state.config.predicate = .coResidency := by
    intro f hget hf
    rw [hget, Option.map_eq_some_iff] at hs
    obtain ⟨old, hold, rfl⟩ := hs
    rw [hf]
    exact h pool old hold
  cases hmove with
  | prune hp =>
    obtain ⟨old, hold, hstate⟩ := hp.get?_inv hs
    have hconfig : state.config = old.config := by
      rcases hstate with rfl | rfl
      · rfl
      · exact RuntimePool.prune_config now old
    rw [hconfig]
    exact h pool old hold
  | openPool =>
    rw [Dict.get?_insert] at hs
    split at hs
    · cases hs
      rfl
    · exact h pool state hs
  | @grant request =>
    exact hmap (get?_pools_granted a a.nextTicket request now pool) fun _ => rfl
  | @promote _ p => exact hmap (get?_pools_granted a p.ticketId p.request now pool) fun _ => rfl
  | @finish how leaseId held =>
    exact hmap (get?_pools_finished a how leaseId held pool) fun _ => rfl
  | resort =>
    rcases a.refreshAgedOrder_cases now with hr | hr <;> rw [hr] at hs <;> exact h pool state hs
  | _ => exact h pool state hs

namespace LeaseEngine

variable {a b : LeaseEngine} {now : Time}

/-- An admission leaves the queue starved, on every exit. -/
theorem Starved.admitAt {original : LeaseRequest} {result : Except LeaseError AdmitOutcome}
    (h : a.Starved now) (hok : a.QueueOk) (hkeys : a.CoResident ∨ a.FreshKey original)
    (hadmitted : (admitAt original now).exec a = (result, b)) : b.Starved now := by
  have hopened : ∀ request, (a.opened request).Starved now := fun request =>
    h.of_fuller hok (.opened a request) (fun q hq => ⟨q, hq, rfl⟩) fun _ _ => rfl
  cases admitAt_exit hadmitted with
  | invalid => exact h
  | overflow => exact hopened _
  | failed _ _ hp => exact ((hopened _).pruneOf hp).of_frame rfl rfl fun q hq => ⟨q, hq, rfl⟩
  | unlogged _ _ hp =>
    exact ((hopened _).pruneOf hp).of_frame rfl rfl fun q hq => ⟨q, hq, rfl⟩
  | @granted request mid hrequest _ hp =>
    obtain ⟨pools, -, rfl, -⟩ := canonicalizeRequest_eq hrequest
    have hmoves : Moves 0 now (fun _ => False) a mid :=
      (foldl_openCampaignPool_moves pools a).tail (.prune hp)
    have hkeys : mid.CoResident ∨ mid.FreshKey original := by
      refine hkeys.imp (hmoves.invariant Move.coResident) fun hfresh q hq => ?_
      rw [hp.pending_eq] at hq
      exact hfresh q hq
    have hgranted : (mid.granted mid.nextTicket { original with pools } now).Starved now :=
      ((hopened _).pruneOf hp).granted (hmoves.invariant Move.queueOk hok) hkeys
    exact hgranted.of_frame rfl rfl fun q hq => ⟨q, hq, rfl⟩
  | queued _ _ hp _ full hrec => exact (((hopened _).pruneOf hp).queued full).reconcile hrec
  | unqueued _ _ hp _ full hrec =>
    refine ((((hopened _).pruneOf hp).queued full).reconcile hrec).of_frame rfl rfl ?_
    exact fun q hq => ⟨q, List.mem_of_mem_filter hq, rfl⟩

end LeaseEngine

/-! ## Calls -/

theorem Move.trace_suffix {base : Nat} {now : Time} {own : LeaseRequest → Prop} {a b : LeaseEngine}
    (hmove : Move base now own a b) (h : a.QueueOk) : a.trace <:+ b.trace := by
  cases hmove.account h with
  | prune hp => rw [hp.trace_eq]
  | quiet _ _ htrace =>
    obtain ⟨entries, hentries, -⟩ := htrace
    exact ⟨entries, hentries.symm⟩
  | charge _ _ _ _ htrace => exact ⟨[_], htrace.symm⟩
  | attempt _ _ _ _ htrace => rw [htrace]

/-- A lease that a call has given back does not return within the call. -/
theorem Moves.not_held_of_finished {base : Nat} {now : Time} {own : LeaseRequest → Prop}
    {a b : LeaseEngine} (ht : a.TicketInv) (hok : a.QueueOk) {how : Finish} {leaseId : String}
    {held : HeldLease} (get : a.held.get? leaseId = some held)
    (hmoves : Moves base now own (a.finished how leaseId held) b) : leaseId ∉ b.held.keys := by
  have hfinish : Move base now own a (a.finished how leaseId held) := .finish get
  have hlater : b.TicketInv ∧ b.QueueOk ∧ (a.finished how leaseId held).trace <:+ b.trace := by
    refine hmoves.invariant (P := fun engine => engine.TicketInv ∧ engine.QueueOk ∧
      (a.finished how leaseId held).trace <:+ engine.trace) ?_
      ⟨hfinish.ticketInv ht, hfinish.queueOk hok, List.suffix_rfl⟩
    rintro c d hmove ⟨ht, hok, htrace⟩
    exact ⟨hmove.ticketInv ht, hmove.queueOk hok, htrace.trans (hmove.trace_suffix hok)⟩
  obtain ⟨ht, -, htrace⟩ := hlater
  have hfinished : leaseId ∈ b.finishedIds :=
    List.mem_filterMap.mpr ⟨.finished how leaseId, htrace.subset List.mem_cons_self, rfl⟩
  intro hheld
  have hnodup := ht.nodup
  rw [tickets, List.append_assoc, List.nodup_append] at hnodup
  exact hnodup.2.2 leaseId hheld leaseId (List.mem_append_right _ hfinished) rfl

namespace Op

/-- The call returns, and not with an error. -/
def Succeeds (engine : LeaseEngine) (op : Op) : Prop := ∃ reply, (op.exec engine).1 = .ok reply

instance (engine : LeaseEngine) (op : Op) : Decidable (op.Succeeds engine) :=
  match h : (op.exec engine).1 with
  | .ok reply => .isTrue ⟨reply, h⟩
  | .error _ => .isFalse fun ⟨_, hreply⟩ => by
    rw [h] at hreply
    cases hreply

/-- If the call fails, it has not given a lease back before. -/
def Whole (engine : LeaseEngine) (op : Op) : Prop :=
  op.Succeeds engine ∨ ∀ id ∈ engine.held.keys, id ∈ (op.exec engine).2.held.keys

/-- The call gives leases back and promotes. -/
def Promotes : Op → Bool
  | releaseAt .. | commitPreemptions .. | tick .. => true
  | _ => false

/-- The call does not admit a request under the key of a pending one. -/
def FreshKey (engine : LeaseEngine) : Op → Prop
  | admitAt request _ => engine.FreshKey request
  | _ => True

instance (engine : LeaseEngine) (op : Op) : Decidable (op.Whole engine) :=
  inferInstanceAs (Decidable (_ ∨ _))

instance (engine : LeaseEngine) : (op : Op) → Decidable (op.FreshKey engine)
  | admitAt request _ =>
    inferInstanceAs (Decidable (∀ q ∈ engine.pending, ∀ key ∈ request.admissionKey, _))
  | releaseAt .. | cancelPendingAt .. | planTick _ | commitPreemptions .. | tick _ | budgetUsedAt ..
  | windowResetAt .. | status .. => .isTrue trivial

end Op

namespace LeaseEngine

variable {a b : LeaseEngine} {now : Time}

/-- `preemptEach` fails before it has preempted anything, or it has preempted a lease. -/
theorem preemptEach_held {reclaimed : List String} {result : Except LeaseError (List LeaseGrant)}
    (h : (preemptEach now reclaimed).exec a = (result, b)) :
    b = a ∨ ∃ leaseId held, a.held.get? leaseId = some held ∧
      Moves 0 now (fun _ => False) (a.finished .preempted leaseId held) b := by
  cases reclaimed with
  | nil =>
    cases h
    exact .inl rfl
  | cons leaseId rest =>
    rcases preemptEach_cons h with ⟨rfl, _⟩ | ⟨held, hs, _, more, hmore, _⟩
    · exact .inl rfl
    · exact .inr ⟨leaseId, held, hs, preemptEach_moves hmore⟩

theorem reconcile_keys {result : Except LeaseError Unit}
    (h : (reconcileYieldDemands now).exec a = (result, b)) : b.held.keys = a.held.keys := by
  have hrefresh := refreshAgedOrder_held a now
  rcases reconcile_spec h with ⟨_, _, hp⟩ | ⟨_, mid, deadline, hp, _, rfl⟩
  · rw [hp.held_eq, hrefresh]
  · rw [← hrefresh, ← hp.held_eq]
    exact Dict.keys_mapVals _ _

/-- A preemption that succeeds leaves the queue starved; one that fails and has kept every lease
leaves it as it was. -/
theorem commitPreemptions_starved {reclaimed : List String}
    {result : Except LeaseError TickOutcome} (ht : a.TicketInv) (hok : a.QueueOk)
    (h : (commitPreemptions reclaimed now).exec a = (result, b))
    (hcase : (∃ outcome, result = .ok outcome) ∨
      a.Starved now ∧ ∀ id ∈ a.held.keys, id ∈ b.held.keys) : b.Starved now := by
  have hkept : ∀ {error : LeaseError}, result = .error error →
      a.Starved now ∧ ∀ id ∈ a.held.keys, id ∈ b.held.keys := fun herror =>
    hcase.resolve_left fun ⟨_, hresult⟩ => by rw [herror] at hresult; cases hresult
  rcases commitPreemptions_cases h with ⟨_, hrec, herror⟩ | ⟨c, hrec, hrest⟩
  · exact (hkept herror).1.reconcile hrec
  have hmoves : Moves 0 now (fun _ => False) a c := reconcile_moves hrec
  have htc := hmoves.ticketInv ht
  have hokc := hmoves.invariant Move.queueOk hok
  -- a lease that was preempted is missing at the end
  have hgone : ∀ {leaseId held}, c.held.get? leaseId = some held →
      (∀ id ∈ a.held.keys, id ∈ b.held.keys) →
      ¬ Moves 0 now (fun _ => False) (c.finished .preempted leaseId held) b := by
    intro leaseId held hs hall hmoves
    refine hmoves.not_held_of_finished htc hokc hs (hall leaseId ?_)
    rw [← reconcile_keys hrec]
    exact c.held.mem_keys_iff.mpr ⟨held, hs⟩
  rcases hrest with ⟨_, hpre, herror⟩ | ⟨preempted, d, hpre, ⟨_, hpro, herror⟩ |
    ⟨grants, e, hpro, last, hlast, -⟩⟩
  · obtain ⟨hstarved, hall⟩ := hkept herror
    rcases preemptEach_held hpre with rfl | ⟨leaseId, held, hs, hmoves⟩
    · exact hstarved.reconcile hrec
    · exact absurd hmoves (hgone hs hall)
  · obtain ⟨hstarved, hall⟩ := hkept herror
    rcases preemptEach_held hpre with rfl | ⟨leaseId, held, hs, hmoves⟩
    · exact (hstarved.reconcile hrec).promote hpro
    · exact absurd (hmoves.trans (promote_moves hpro)) (hgone hs hall)
  · have hdone : e.Starved now := promote_done hpro
    exact hdone.reconcile hlast

theorem releaseAt_starved {leaseId : String} {epoch : Nat}
    {result : Except LeaseError ReleaseOutcome} (ht : a.TicketInv) (hok : a.QueueOk)
    (h : (releaseAt leaseId epoch now).exec a = (result, b))
    (hcase : (∃ outcome, result = .ok outcome) ∨
      a.Starved now ∧ ∀ id ∈ a.held.keys, id ∈ b.held.keys) : b.Starved now := by
  have hkept : ∀ {error : LeaseError}, result = .error error →
      a.Starved now ∧ ∀ id ∈ a.held.keys, id ∈ b.held.keys := fun herror =>
    hcase.resolve_left fun ⟨_, hresult⟩ => by rw [herror] at hresult; cases hresult
  rcases releaseAt_cases h with ⟨rfl, _, herror⟩ | ⟨held, hs, ⟨_, hpro, herror⟩ |
    ⟨grants, mid, hpro, last, hlast, -⟩⟩
  · exact (hkept herror).1
  · have hmoves : Moves 0 now (fun _ => False) (a.finished .released leaseId held) b :=
      promote_moves hpro
    refine absurd ((hkept herror).2 leaseId ?_) (hmoves.not_held_of_finished ht hok hs)
    exact a.held.mem_keys_iff.mpr ⟨held, hs⟩
  · have hdone : mid.Starved now := promote_done hpro
    exact hdone.reconcile hlast

theorem tick_starved {result : Except LeaseError TickOutcome} (ht : a.TicketInv) (hok : a.QueueOk)
    (h : (tick now).exec a = (result, b))
    (hcase : (∃ outcome, result = .ok outcome) ∨
      a.Starved now ∧ ∀ id ∈ a.held.keys, id ∈ b.held.keys) : b.Starved now := by
  rcases tick_cases h with ⟨error, hplan, rfl⟩ | ⟨planned, mid, hplan, hcommit⟩
  · obtain ⟨_, hrec, -⟩ := planTick_cases hplan
    obtain ⟨hstarved, -⟩ := hcase.resolve_left fun ⟨_, hresult⟩ => by cases hresult
    exact hstarved.reconcile hrec
  · obtain ⟨_, hrec, -⟩ := planTick_cases hplan
    have hmoves : Moves 0 now (fun _ => False) a mid := reconcile_moves hrec
    refine commitPreemptions_starved (hmoves.ticketInv ht) (hmoves.invariant Move.queueOk hok)
      hcommit (hcase.imp_right fun ⟨hstarved, hall⟩ => ⟨hstarved.reconcile hrec, ?_⟩)
    rwa [reconcile_keys hrec]

theorem ok_of_map {α β : Type} {f : α → β} {result : Except LeaseError α}
    (h : ∃ value, result.map f = .ok value) : ∃ value, result = .ok value := by
  cases result with
  | error error => obtain ⟨_, h⟩ := h; cases h
  | ok value => exact ⟨value, rfl⟩

/-- A call that promotes and succeeds leaves the queue starved. Any other call that is whole leaves
it starved if it was. -/
theorem exec_starved {engine : LeaseEngine} {op : Op} (ht : engine.TicketInv) (hok : engine.QueueOk)
    (hkeys : engine.CoResident ∨ op.FreshKey engine) (hwhole : op.Whole engine)
    (hstarved : op.Promotes ∧ op.Succeeds engine ∨ engine.Starved op.time) :
    (op.exec engine).2.Starved op.time := by
  rcases h : op.exec engine with ⟨result, engine'⟩
  have hcase : op.Promotes → (∃ reply, result = .ok reply) ∨
      engine.Starved op.time ∧ ∀ id ∈ engine.held.keys, id ∈ engine'.held.keys := by
    intro _
    rw [Op.Whole, Op.Succeeds, h] at hwhole
    rw [Op.Succeeds, h] at hstarved
    rcases hwhole with hreply | hall
    · exact .inl hreply
    · exact hstarved.imp (·.2) fun hstarved => ⟨hstarved, hall⟩
  have hbefore : ¬ op.Promotes → engine.Starved op.time := fun hno =>
    hstarved.resolve_left fun hpromotes => hno hpromotes.1
  unfold Op.exec at h
  cases op with
  | admitAt request now =>
    obtain ⟨_, h, -⟩ := exec_map h
    exact (hbefore nofun).admitAt hok hkeys h
  | releaseAt leaseId epoch now =>
    obtain ⟨reply, hcall, rfl⟩ := exec_map h
    exact releaseAt_starved ht hok hcall ((hcase rfl).imp_left ok_of_map)
  | cancelPendingAt ticketId epoch now =>
    obtain ⟨_, h, -⟩ := exec_map h
    rcases cancelPendingAt_cases h with ⟨rfl, _⟩ | ⟨_, rfl, _⟩
    · exact hbefore nofun
    · exact (hbefore nofun).of_frame rfl rfl fun q hq => ⟨q, List.mem_of_mem_eraseP hq, rfl⟩
  | planTick now =>
    obtain ⟨_, h, -⟩ := exec_map h
    obtain ⟨_, hrec, -⟩ := planTick_cases h
    exact (hbefore nofun).reconcile hrec
  | commitPreemptions reclaimed now =>
    obtain ⟨reply, hcall, rfl⟩ := exec_map h
    exact commitPreemptions_starved ht hok hcall ((hcase rfl).imp_left ok_of_map)
  | tick now =>
    obtain ⟨reply, hcall, rfl⟩ := exec_map h
    exact tick_starved ht hok hcall ((hcase rfl).imp_left ok_of_map)
  | budgetUsedAt pool now =>
    obtain ⟨_, h, -⟩ := exec_map h
    exact (hbefore nofun).pruneOf (budgetUsedAt_pruneOf h)
  | windowResetAt pool now =>
    obtain ⟨_, h, -⟩ := exec_map h
    exact (hbefore nofun).pruneOf (windowResetAt_pruneOf h)
  | status leaseId epoch now =>
    obtain ⟨_, h, -⟩ := exec_map h
    rw [status_frame h]
    exact hbefore nofun

/-! ## Promotions -/

/-- The promotions of a call: one request after the other, each the first of the queue that fits
once the earlier ones have been granted, until none does. -/
inductive Greedy (now : Time) : LeaseEngine → List LeaseGrant → LeaseEngine → Prop
  | done {engine engine' : LeaseEngine} (hp : PruneOf now engine engine')
    (starved : engine'.Starved now) : Greedy now engine [] engine'
  | next {engine mid engine' : LeaseEngine} {index : Nat} {p : PendingRequest}
    {promoted : List LeaseGrant} (hp : PruneOf now engine mid) (first : mid.FirstFit now index p)
    (rest : Greedy now (mid.promoted index p now) promoted engine') :
    Greedy now engine (mid.grantFor p.ticketId p.request now :: promoted) engine'

theorem promoteLoop_greedy {rounds : Nat} {grants : List LeaseGrant}
    (hrounds : a.pending.length ≤ rounds) (h : (promoteLoop now rounds).exec a = (.ok grants, b)) :
    Greedy now a grants b := by
  induction rounds generalizing a grants with
  | zero =>
    cases h
    refine .done .rfl' fun q hq => ?_
    rw [List.eq_nil_of_length_eq_zero (Nat.le_zero.mp hrounds)] at hq
    cases hq
  | succ rounds ih =>
    generalize hresult : (Except.ok grants : Except LeaseError (List LeaseGrant)) = result at h
    cases promoteLoop_round h with
    | failed => cases hresult
    | unlogged => cases hresult
    | done hp full =>
      cases hresult
      exact .done hp full
    | @granted mid index p rest _ hp hselect _ hmore =>
      cases rest with
      | error error => cases hresult
      | ok promoted =>
        cases hresult
        refine .next hp hselect (ih ?_ hmore)
        have hlength : (mid.promoted index p now).pending.length + 1 = mid.pending.length :=
          length_promoted hselect.get
        rw [hp.pending_eq] at hlength
        omega

theorem promote_greedy {grants : List LeaseGrant} (h : (promote now).exec a = (.ok grants, b)) :
    Greedy now (a.refreshAgedOrder now) grants b := by
  rw [LeaseEngine.promote, Eff.exec_bind] at h
  simp only [Eff.exec_modify] at h
  rw [Eff.exec_bind] at h
  exact promoteLoop_greedy le_rfl h

/-! ### The order of the queue -/

/-- The ranks of the queue are those of `now`. -/
def Ranked (engine : LeaseEngine) (now : Time) : Prop :=
  ∀ p ∈ engine.pending, p.effectiveRank = effectiveRankAt p now engine.agingThreshold

theorem Ranked.refreshAgedOrder_eq (h : a.Ranked now) : a.refreshAgedOrder now = a := by
  unfold refreshAgedOrder
  rw [if_neg]
  intro hany
  obtain ⟨p, hp, hstale⟩ := List.any_eq_true.mp hany
  exact of_decide_eq_true hstale (h p hp)

theorem ranked_refreshAgedOrder (engine : LeaseEngine) (now : Time) :
    (engine.refreshAgedOrder now).Ranked now := by
  unfold refreshAgedOrder
  split
  · intro p hp
    obtain ⟨q, -, rfl⟩ := mem_sortPending hp
    rfl
  next hnone =>
    intro p hp
    by_contra hstale
    exact hnone (List.any_eq_true.mpr ⟨p, hp, decide_eq_true hstale⟩)

theorem Ranked.of_frame (h : a.Ranked now) (haging : b.agingThreshold = a.agingThreshold)
    (hpending : ∀ q ∈ b.pending, q ∈ a.pending) : b.Ranked now := by
  intro q hq
  rw [haging]
  exact h q (hpending q hq)

theorem Greedy.ranked {grants : List LeaseGrant} (h : Greedy now a grants b) (hranked : a.Ranked now) :
    b.Ranked now := by
  induction h with
  | done hp =>
    exact hranked.of_frame (by rw [hp.frame]) fun q hq => hp.pending_eq ▸ hq
  | @next engine mid _ index p _ hp first _ ih =>
    refine ih (hranked.of_frame ?_ fun q hq => ?_)
    · show mid.agingThreshold = _
      rw [hp.frame]
    · rw [← hp.pending_eq]
      exact (List.eraseIdx_sublist ..).subset hq

/-- A reconciliation puts the queue in the order of `now` and leaves the requests alone. -/
theorem reconcile_pending {result : Except LeaseError Unit}
    (h : (reconcileYieldDemands now).exec a = (result, b)) :
    b.pending = (a.refreshAgedOrder now).pending ∧ b.agingThreshold = a.agingThreshold := by
  have haging := refreshAgedOrder_agingThreshold a now
  rcases reconcile_spec h with ⟨_, _, hp⟩ | ⟨_, mid, deadline, hp, _, rfl⟩
  · exact ⟨hp.pending_eq, by rw [hp.frame, haging]⟩
  · refine ⟨hp.pending_eq, ?_⟩
    change mid.agingThreshold = _
    rw [hp.frame, haging]

/-! ### Where a promotion starts -/

/-- The engine without some leases, its queue in the order of `now`. -/
structure Frees (engine : LeaseEngine) (now : Time) (removed : List LeaseGrant)
    (start : LeaseEngine) : Prop where
  order : start.pending = (engine.refreshAgedOrder now).pending
  leases : ∀ id, (start.held.get? id).map (·.grant) =
    if id ∈ removed.map (·.leaseId) then none else (engine.held.get? id).map (·.grant)
  pools : ∀ pool state, engine.pools.get? pool = some state →
    ∃ state', start.pools.get? pool = some state' ∧ state'.config = state.config
  holders : start.HolderInv

/-- The call takes these leases away and promotes greedily. -/
def PromotesGreedily (engine : LeaseEngine) (now : Time) (removed promoted : List LeaseGrant)
    (engine' : LeaseEngine) : Prop :=
  ∃ start last, engine.Frees now removed start ∧ Greedy now start promoted last ∧
    engine'.pending = last.pending

theorem Moves.get?_config {base : Nat} {own : LeaseRequest → Prop} (h : Moves base now own a b)
    {pool : String} {state : RuntimePool} (hs : a.pools.get? pool = some state) :
    ∃ state', b.pools.get? pool = some state' ∧ state'.config = state.config := by
  induction h with
  | refl => exact ⟨state, hs, rfl⟩
  | tail _ hmove ih =>
    obtain ⟨mid, hmid, hconfig⟩ := ih
    obtain ⟨last, hlast, hconfig'⟩ := hmove.get?_config hmid
    exact ⟨last, hlast, hconfig'.trans hconfig⟩

theorem Moves.holderInv {base : Nat} {own : LeaseRequest → Prop} (h : Moves base now own a b)
    (ht : a.TicketInv) (hinv : a.HolderInv) : b.HolderInv :=
  (h.invariant (P := fun engine => engine.TicketInv ∧ engine.HolderInv)
    (fun hmove h => ⟨hmove.ticketInv h.1, hmove.holderInv h.1 h.2⟩) ⟨ht, hinv⟩).2

theorem grant_finished {how : Finish} {leaseId : String} {held : HeldLease} (id : String) :
    ((a.finished how leaseId held).held.get? id).map (·.grant) =
      if id = held.grant.leaseId then none else (a.held.get? id).map (·.grant) := by
  change ((a.held.erase held.grant.leaseId).get? id).map _ = _
  rw [Dict.get?_erase]
  split <;> rfl

theorem preemptEach_frees {reclaimed : List String} {preempted : List LeaseGrant}
    (h : (preemptEach now reclaimed).exec a = (.ok preempted, b)) :
    b.pending = a.pending ∧ b.agingThreshold = a.agingThreshold ∧
      ∀ id, (b.held.get? id).map (·.grant) =
        if id ∈ preempted.map (·.leaseId) then none else (a.held.get? id).map (·.grant) := by
  induction reclaimed generalizing a preempted with
  | nil =>
    cases h
    exact ⟨rfl, rfl, fun id => by simp⟩
  | cons leaseId rest ih =>
    rcases preemptEach_cons h with ⟨-, _, herror⟩ | ⟨held, hs, _, more, hmore, hresult⟩
    · cases herror
    · cases more with
      | error error => cases hresult
      | ok grants =>
        cases hresult
        obtain ⟨hpending, haging, hheld⟩ := ih hmore
        refine ⟨hpending, haging, fun id => ?_⟩
        rw [hheld, grant_finished, List.map_cons]
        by_cases hid : id = held.grant.leaseId <;> simp [hid]

theorem refreshAgedOrder_pending_eq (hpending : b.pending = a.pending)
    (haging : b.agingThreshold = a.agingThreshold) :
    (b.refreshAgedOrder now).pending = (a.refreshAgedOrder now).pending := by
  unfold refreshAgedOrder
  rw [hpending, haging]
  split
  · unfold sortPending
    rw [hpending, haging]
  · exact hpending

theorem grant_reconcile {result : Except LeaseError Unit}
    (h : (reconcileYieldDemands now).exec a = (result, b)) (id : String) :
    (b.held.get? id).map (·.grant) = (a.held.get? id).map (·.grant) := by
  have hrefresh := refreshAgedOrder_held a now
  rcases reconcile_spec h with ⟨_, _, hp⟩ | ⟨_, mid, deadline, hp, _, rfl⟩
  · rw [hp.held_eq, hrefresh]
  · change ((mid.held.mapVals _).get? id).map _ = _
    rw [Dict.get?_mapVals, Option.map_map, hp.held_eq, hrefresh]
    rfl

/-- After a promotion the queue stays in the order it has. -/
theorem Greedy.reconcile_pending {grants : List LeaseGrant} {c : LeaseEngine}
    {result : Except LeaseError Unit} (h : Greedy now a grants b) (hranked : a.Ranked now)
    (hrec : (reconcileYieldDemands now).exec b = (result, c)) : c.pending = b.pending := by
  rw [(LeaseEngine.reconcile_pending hrec).1, (h.ranked hranked).refreshAgedOrder_eq]

theorem releaseAt_greedy {leaseId : String} {epoch : Nat} {outcome : ReleaseOutcome}
    (ht : a.TicketInv) (hinv : a.HolderInv)
    (h : (releaseAt leaseId epoch now).exec a = (.ok outcome, b)) :
    a.PromotesGreedily now [outcome.released] outcome.promoted b := by
  rcases releaseAt_cases h with ⟨-, _, herror⟩ | ⟨held, hs, ⟨_, _, herror⟩ |
    ⟨grants, mid, hpro, last, hrec, hresult⟩⟩
  · cases herror
  · cases herror
  cases last with
  | error error => cases hresult
  | ok =>
    cases hresult
    have hgreedy := promote_greedy hpro
    have hmoves : Moves 0 now (fun _ => False) a
        ((a.finished .released leaseId held).refreshAgedOrder now) :=
      (Move.finish hs).moves.tail .resort
    refine ⟨(a.finished .released leaseId held).refreshAgedOrder now, mid,
      ⟨refreshAgedOrder_pending_eq rfl rfl, fun id => ?_,
        fun pool state hstate => Moves.get?_config hmoves hstate,
        Moves.holderInv hmoves ht hinv⟩, hgreedy,
      hgreedy.reconcile_pending (ranked_refreshAgedOrder _ _) hrec⟩
    rw [refreshAgedOrder_held, grant_finished]
    simp

theorem commitPreemptions_greedy {reclaimed : List String} {outcome : TickOutcome}
    (ht : a.TicketInv) (hinv : a.HolderInv)
    (h : (commitPreemptions reclaimed now).exec a = (.ok outcome, b)) :
    a.PromotesGreedily now outcome.preempted outcome.promoted b := by
  rcases commitPreemptions_cases h with ⟨_, _, herror⟩ | ⟨c, hrec, ⟨_, _, herror⟩ |
    ⟨preempted, d, hpre, ⟨_, _, herror⟩ | ⟨grants, e, hpro, last, hlast, hresult⟩⟩⟩
  · cases herror
  · cases herror
  · cases herror
  cases last with
  | error error => cases hresult
  | ok =>
    cases hresult
    obtain ⟨hpending, haging⟩ := reconcile_pending hrec
    obtain ⟨hpending', haging', hheld⟩ := preemptEach_frees hpre
    -- the queue is in the order of `now` before the promotion sorts it again
    have hranked : d.Ranked now := by
      refine (ranked_refreshAgedOrder a now).of_frame ?_ fun q hq => ?_
      · rw [haging', haging, refreshAgedOrder_agingThreshold]
      · rwa [← hpending, ← hpending']
    have hgreedy := promote_greedy hpro
    rw [hranked.refreshAgedOrder_eq] at hgreedy
    have hmoves : Moves 0 now (fun _ => False) a d :=
      (reconcile_moves hrec).trans (preemptEach_moves hpre)
    refine ⟨d, e, ⟨hpending'.trans hpending, fun id => ?_,
      fun pool state hstate => Moves.get?_config hmoves hstate, Moves.holderInv hmoves ht hinv⟩,
      hgreedy, hgreedy.reconcile_pending hranked hlast⟩
    rw [hheld, grant_reconcile hrec]

theorem tick_greedy {outcome : TickOutcome} (ht : a.TicketInv) (hinv : a.HolderInv)
    (h : (tick now).exec a = (.ok outcome, b)) :
    a.PromotesGreedily now outcome.preempted outcome.promoted b := by
  rcases tick_cases h with ⟨_, _, herror⟩ | ⟨planned, mid, hplan, hcommit⟩
  · cases herror
  obtain ⟨_, hrec, -⟩ := planTick_cases hplan
  have hmoves : Moves 0 now (fun _ => False) a mid := reconcile_moves hrec
  obtain ⟨hpending, haging⟩ := reconcile_pending hrec
  have hranked : mid.Ranked now := by
    refine (ranked_refreshAgedOrder a now).of_frame ?_ fun q hq => hpending ▸ hq
    rw [haging, refreshAgedOrder_agingThreshold]
  obtain ⟨start, last, hfrees, hgreedy, hlast⟩ :=
    commitPreemptions_greedy (hmoves.ticketInv ht) (Moves.holderInv hmoves ht hinv) hcommit
  refine ⟨start, last, ⟨?_, fun id => ?_, fun pool state hs => ?_, hfrees.holders⟩, hgreedy, hlast⟩
  · rw [hfrees.order, hranked.refreshAgedOrder_eq, hpending]
  · rw [hfrees.leases, grant_reconcile hrec]
  · obtain ⟨state', hs', hconfig⟩ := Moves.get?_config hmoves hs
    obtain ⟨state'', hs'', hconfig'⟩ := hfrees.pools pool state' hs'
    exact ⟨state'', hs'', hconfig'.trans hconfig⟩

end LeaseEngine

/-! ## Runs -/

/-- The engines that the constructors return. -/
inductive LeaseEngine.Started : LeaseEngine → Prop
  | new {epoch yieldGrace agingThreshold : Nat} {pools : Dict String PoolConfig}
    {events : Option LeaseEventLog} {engine : LeaseEngine}
    (h : newWithAgingThreshold epoch yieldGrace agingThreshold pools events = .ok engine) :
    Started engine
  | rebuilt {epoch yieldGrace agingThreshold witnessRecords : Nat} {pools : Dict String PoolConfig}
    {log : LeaseEventLog} {now : Time} {engine : LeaseEngine}
    (h : fromDurableWithAgingThreshold epoch yieldGrace agingThreshold pools log witnessRecords
      now = .ok engine) : Started engine

theorem readable_of_read {log : LeaseEventLog} {lines : List LeaseEvent}
    (h : log.read = .ok lines) : Readable log := by
  rw [LeaseEventLog.read, log.whole_of_read h, if_neg Bool.false_ne_true] at h
  split at h
  · cases h
  next hnone =>
    intro event hevent
    simpa using List.find?_eq_none.mp hnone event hevent

theorem LeaseEngine.Started.fresh {engine : LeaseEngine} (h : engine.Started) :
    engine.TicketInv ∧ engine.HolderInv ∧ engine.pending = [] := by
  cases h with
  | new h =>
    refine ⟨new_ticketInv h, new_holderInv h, ?_⟩
    obtain ⟨-, rfl⟩ := new_eq h
    rfl
  | @rebuilt _ _ _ _ _ log _ _ h =>
    have hread : Readable log := by
      unfold fromDurableWithAgingThreshold at h
      split at h
      · cases h
      next hlines => exact readable_of_read hlines
    obtain ⟨-, herror, snapshot, -, hrebuilt⟩ := fromDurable_rebuilt hread h
    exact ⟨hrebuilt.ticketInv, hrebuilt.holderInv herror, hrebuilt.fresh.2.1⟩

theorem Op.exec_queueOk {engine : LeaseEngine} (op : Op) (h : engine.QueueOk) :
    (op.exec engine).2.QueueOk :=
  (op.exec_moves engine).invariant Move.queueOk h

theorem Op.exec_ticketInv {engine : LeaseEngine} (op : Op) (h : engine.TicketInv) :
    (op.exec engine).2.TicketInv :=
  (op.exec_moves engine).ticketInv h

/-- Without windows, time makes no difference. -/
theorem LeaseEngine.Starved.of_coResident {engine : LeaseEngine} {time : Time}
    (h : engine.Starved time) (hco : engine.CoResident) (now : Time) : engine.Starved now := by
  intro q hq hfits
  refine h q hq fun pool hpool => ?_
  obtain ⟨state, hs, htakes⟩ := hfits pool hpool
  rw [RuntimePool.takes_coResidency (hco pool state hs)] at htakes
  exact ⟨state, hs, (RuntimePool.takes_coResidency (hco pool state hs)).mpr htakes⟩

theorem LeaseEngine.Starved.of_nil {engine : LeaseEngine} (h : engine.pending = []) (now : Time) :
    engine.Starved now := by
  intro q hq
  rw [h] at hq
  cases hq

theorem LeaseEngine.QueueOk.of_nil {engine : LeaseEngine} (h : engine.pending = []) :
    engine.QueueOk := by
  intro q hq
  rw [h] at hq
  cases hq

theorem exec_released {op : Op} {a b : LeaseEngine} {outcome : ReleaseOutcome}
    (h : op.exec a = (.ok (.released outcome), b)) : ∃ leaseId epoch now,
      op = .releaseAt leaseId epoch now ∧ (releaseAt leaseId epoch now).exec a = (.ok outcome, b) := by
  unfold Op.exec at h
  cases op with
  | releaseAt leaseId epoch now =>
    obtain ⟨reply, hcall, hreply⟩ := exec_map h
    cases reply with
    | error error => cases hreply
    | ok reply =>
      cases hreply
      exact ⟨leaseId, epoch, now, rfl, hcall⟩
  | _ =>
    obtain ⟨reply, -, hreply⟩ := exec_map h
    cases reply <;> cases hreply

theorem exec_ticked {op : Op} {a b : LeaseEngine} {outcome : TickOutcome}
    (h : op.exec a = (.ok (.ticked outcome), b)) :
    (∃ reclaimed now, op = .commitPreemptions reclaimed now ∧
      (commitPreemptions reclaimed now).exec a = (.ok outcome, b)) ∨
    ∃ now, op = .tick now ∧ (tick now).exec a = (.ok outcome, b) := by
  unfold Op.exec at h
  cases op with
  | commitPreemptions reclaimed now =>
    obtain ⟨reply, hcall, hreply⟩ := exec_map h
    cases reply with
    | error error => cases hreply
    | ok reply =>
      cases hreply
      exact .inl ⟨reclaimed, now, rfl, hcall⟩
  | tick now =>
    obtain ⟨reply, hcall, hreply⟩ := exec_map h
    cases reply with
    | error error => cases hreply
    | ok reply =>
      cases hreply
      exact .inr ⟨now, rfl, hcall⟩
  | _ =>
    obtain ⟨reply, -, hreply⟩ := exec_map h
    cases reply <;> cases hreply

theorem LeaseEngine.run_starved {engine : LeaseEngine} (ht : engine.TicketInv) (hok : engine.QueueOk)
    (hco : engine.CoResident) (hstarved : ∀ now, engine.Starved now) {ops : List Op}
    (h : Along (fun engine op => op.Succeeds engine) engine ops) (now : Time) :
    (engine.run ops).Starved now := by
  induction ops generalizing engine with
  | nil => exact hstarved now
  | cons op ops ih =>
    obtain ⟨hop, hops⟩ := h
    have hco' : (op.exec engine).2.CoResident := (op.exec_moves engine).invariant Move.coResident hco
    have hnext := exec_starved ht hok (.inl hco) (.inl hop) (.inr (hstarved op.time))
    exact ih (op.exec_ticketInv ht) (op.exec_queueOk hok) hco' (fun t => hnext.of_coResident hco' t)
      hops

/-- Capacity is not left idle: with co-residency pools alone, nothing that waits between two calls
could be granted, and what a call promotes is the greedy selection from the queue. -/
theorem co_residency_conserves_work {engine : LeaseEngine} (hstart : engine.Started)
    (hco : engine.CoResident) {ops : List Op}
    (h : Along (fun engine op => op.Succeeds engine) engine ops) :
    (∀ q ∈ (engine.run ops).pending, ∀ now,
      ((canGrant q.request now).exec (engine.run ops)).1 ≠ .ok true) ∧
    (∀ (op : Op) (outcome : ReleaseOutcome),
      (op.exec (engine.run ops)).1 = .ok (.released outcome) →
      (engine.run ops).PromotesGreedily op.time [outcome.released] outcome.promoted
        (op.exec (engine.run ops)).2) ∧
    ∀ (op : Op) (outcome : TickOutcome), (op.exec (engine.run ops)).1 = .ok (.ticked outcome) →
      (engine.run ops).PromotesGreedily op.time outcome.preempted outcome.promoted
        (op.exec (engine.run ops)).2 := by
  obtain ⟨ht, hinv, hpending⟩ := hstart.fresh
  have htrun := run_ticketInv ht ops
  have hinvrun := run_holderInv ht hinv ops
  refine ⟨fun q hq now htrue => ?_, fun op outcome hreply => ?_, fun op outcome hreply => ?_⟩
  · exact run_starved ht (.of_nil hpending) hco (.of_nil hpending) h now q hq
      ((canGrant_spec rfl).2.1 htrue).1
  · obtain ⟨leaseId, epoch, now, rfl, hcall⟩ := exec_released (Prod.ext hreply rfl)
    exact releaseAt_greedy htrun hinvrun hcall
  · rcases exec_ticked (Prod.ext hreply rfl) with ⟨reclaimed, now, rfl, hcall⟩ | ⟨now, rfl, hcall⟩
    · exact commitPreemptions_greedy htrun hinvrun hcall
    · exact tick_greedy htrun hinvrun hcall

def conserveOps : List Op :=
  [.admitAt (slotRequest "a") 0, .admitAt (slotRequest "b") 1, .admitAt (slotRequest "c") 2]

/-- Two requests wait for the one slot, and the release promotes the older one. -/
theorem co_residency_conserves_work_slot :
    Along (fun engine op => op.Succeeds engine) (slotEngine none) conserveOps ∧
      ((slotEngine none).run conserveOps).pendingIds = ["lease-1-2", "lease-1-3"] ∧
      (∀ q ∈ ((slotEngine none).run conserveOps).pending, ∀ now,
        ((canGrant q.request now).exec ((slotEngine none).run conserveOps)).1 ≠ .ok true) ∧
      ∀ outcome, ((Op.releaseAt "lease-1-1" 1 3).exec ((slotEngine none).run conserveOps)).1 =
          .ok (.released outcome) →
        ((slotEngine none).run conserveOps).PromotesGreedily 3 [outcome.released] outcome.promoted
          ((Op.releaseAt "lease-1-1" 1 3).exec ((slotEngine none).run conserveOps)).2 := by
  have hco : (slotEngine none).CoResident := by
    intro pool state hs
    change (Dict.insert ∅ "cpu" (RuntimePool.new _)).get? pool = some state at hs
    rw [Dict.get?_insert] at hs
    split at hs
    · cases hs
      rfl
    · cases hs
  have hsucceeds : Along (fun engine op => op.Succeeds engine) (slotEngine none) conserveOps := by
    decide +kernel
  obtain ⟨hidle, hrelease, -⟩ := co_residency_conserves_work (.new (slotEngine_new none)) hco
    hsucceeds
  exact ⟨hsucceeds, by decide +kernel, hidle, hrelease (.releaseAt "lease-1-1" 1 3)⟩

/-! ## Priorities -/

namespace LeaseEngine

/-- No debit of the pool expires between the two times. -/
def DebitsRest (state : RuntimePool) (last now : Time) : Prop :=
  match state.config.predicate with
  | .coResidency => True
  | .windowedConsumption window => ∀ debit ∈ state.debits,
    expired (window.windowSec * nanosPerSec) now debit →
      expired (window.windowSec * nanosPerSec) last debit

/-- No debit that a pending request has to wait for expires between the two times. -/
def BudgetsRest (engine : LeaseEngine) (last now : Time) : Prop :=
  ∀ q ∈ engine.pending, ∀ pool ∈ q.request.pools, ∀ state ∈ engine.pools.get? pool,
    DebitsRest state last now

instance (state : RuntimePool) (last now : Time) : Decidable (DebitsRest state last now) :=
  match h : state.config.predicate with
  | .coResidency => .isTrue (by simp only [DebitsRest, h])
  | .windowedConsumption window =>
    decidable_of_iff (∀ debit ∈ state.debits, expired (window.windowSec * nanosPerSec) now debit →
      expired (window.windowSec * nanosPerSec) last debit) (by simp only [DebitsRest, h])

instance (engine : LeaseEngine) (last now : Time) : Decidable (engine.BudgetsRest last now) :=
  inferInstanceAs (Decidable (∀ q ∈ engine.pending, ∀ pool ∈ q.request.pools, ∀ state ∈ _, _))

/-- If the request is admitted, then over the head of no pending request of a higher rank that could
be granted as well. -/
def RespectsRank (engine : LeaseEngine) (request : LeaseRequest) (now : Time) : Prop :=
  (∃ grant, ((admitAt request now).exec engine).1 = .ok (.granted grant)) →
    ∀ q ∈ engine.pending, request.priority.rank < effectiveRankAt q now engine.agingThreshold →
      ((canGrant q.request now).exec engine).1 ≠ .ok true

/-- If no debit has expired in between, a pool that takes a request would have taken it before. -/
theorem takes_of_rest {state : RuntimePool} {request : LeaseRequest} {last now : Time}
    (hrest : DebitsRest state last now) (h : state.Takes request now) : state.Takes request last := by
  unfold DebitsRest at hrest
  cases hpredicate : state.config.predicate with
  | coResidency =>
    rw [RuntimePool.takes_coResidency hpredicate] at h ⊢
    exact h
  | windowedConsumption window =>
    rw [RuntimePool.takes_windowed hpredicate] at h ⊢
    simp only [hpredicate] at hrest
    have hle := usageOf_le_of_sublist (dropWhile_sublist_of_imp hrest)
    exact ⟨h.1, by omega⟩

theorem Starved.of_rest {engine : LeaseEngine} {last now : Time} (h : engine.Starved last)
    (hrest : engine.BudgetsRest last now) : engine.Starved now := by
  intro q hq hfits
  refine h q hq fun pool hpool => ?_
  obtain ⟨state, hs, htakes⟩ := hfits pool hpool
  exact ⟨state, hs, takes_of_rest (hrest q hq pool hpool state hs) htakes⟩

end LeaseEngine

/-- The call, made after a call at `last`, does not leave a request behind that fits: no budget has
come back since then (or the call promotes), it does not fail halfway, and it does not admit a request
under the key of a pending one. -/
structure Op.Undisturbed (last : Time) (engine : LeaseEngine) (op : Op) : Prop where
  budgets : op.Promotes ∧ op.Succeeds engine ∨ engine.BudgetsRest last op.time
  whole : op.Whole engine
  key : op.FreshKey engine

instance (last : Time) (engine : LeaseEngine) (op : Op) : Decidable (op.Undisturbed last engine) :=
  decidable_of_iff ((op.Promotes ∧ op.Succeeds engine ∨ engine.BudgetsRest last op.time) ∧
    op.Whole engine ∧ op.FreshKey engine) ⟨fun h => ⟨h.1, h.2.1, h.2.2⟩, fun h => ⟨h.1, h.2, h.3⟩⟩

namespace LeaseEngine

/-- Every call of the run is undisturbed, and no budget comes back between the last one and `now`. -/
def UndisturbedUntil (now : Time) : Time → LeaseEngine → List Op → Prop
  | last, engine, [] => engine.BudgetsRest last now
  | last, engine, op :: ops =>
    op.Undisturbed last engine ∧ UndisturbedUntil now op.time (op.exec engine).2 ops

instance instDecidableUndisturbedUntil (now : Time) :
    ∀ last engine ops, Decidable (UndisturbedUntil now last engine ops)
  | last, engine, [] => inferInstanceAs (Decidable (engine.BudgetsRest last now))
  | _, engine, op :: ops =>
    have := instDecidableUndisturbedUntil now op.time (op.exec engine).2 ops
    inferInstanceAs (Decidable (_ ∧ _))

theorem UndisturbedUntil.starved {engine : LeaseEngine} {ops : List Op} {last now : Time}
    (h : UndisturbedUntil now last engine ops) (ht : engine.TicketInv) (hok : engine.QueueOk)
    (hstarved : engine.Starved last) : (engine.run ops).Starved now := by
  induction ops generalizing engine last with
  | nil => exact hstarved.of_rest h
  | cons op ops ih =>
    obtain ⟨hop, hops⟩ := h
    have hnext := exec_starved ht hok (.inr hop.key) hop.whole
      (hop.budgets.imp_right fun hrest => hstarved.of_rest hrest)
    exact ih hops (op.exec_ticketInv ht) (op.exec_queueOk hok) hnext

end LeaseEngine

/-- An admission is granted out of turn only where a budget has come back since the last call, a call
has failed halfway, or an admission was made under the key of a pending request. -/
theorem grant_overtakes_nobody {engine : LeaseEngine} (hstart : engine.Started) {ops : List Op}
    {last now : Time} (h : UndisturbedUntil now last engine ops) (request : LeaseRequest) :
    (engine.run ops).RespectsRank request now := by
  obtain ⟨ht, -, hpending⟩ := hstart.fresh
  have hstarved := h.starved ht (.of_nil hpending) (.of_nil hpending last)
  intro _ q hq _ htrue
  exact hstarved q hq ((canGrant_spec rfl).2.1 htrue).1

def urgentRequest (jobId : String) (estimate : Nat) : LeaseRequest :=
  { apiRequest jobId estimate with priority := .high }

/-- An urgent request that has to wait for the budget. -/
def urgentOps : List Op :=
  [.admitAt (apiRequest "a" 60) 0, .admitAt (urgentRequest "b" 60) (seconds 10)]

/-- A request that fits into what is left of the budget is granted, and the urgent one does not. -/
theorem grant_overtakes_nobody_budget :
    UndisturbedUntil (seconds 20) 0 (apiEngine []) urgentOps ∧
      ((apiEngine []).run urgentOps).pendingIds = ["lease-1-2"] ∧
      ((apiEngine []).run urgentOps).RespectsRank (apiRequest "c" 30) (seconds 20) := by
  have hundisturbed : UndisturbedUntil (seconds 20) 0 (apiEngine []) urgentOps := by
    decide +kernel
  exact ⟨hundisturbed, by decide +kernel,
    grant_overtakes_nobody (.new (apiEngine_new [])) hundisturbed _⟩

def isGranted : Except LeaseError AdmitOutcome → Bool
  | .ok (.granted _) => true
  | _ => false

/-- A request that comes when the budget is back is granted, and the urgent one goes on waiting. -/
theorem grant_overtakes_urgent : ¬ ∀ {engine : LeaseEngine}, engine.Started →
    ∀ (ops : List Op) (request : LeaseRequest) (now : Time),
      (engine.run ops).RespectsRank request now := by
  intro hclaim
  have hrespects := hclaim (.new (apiEngine_new [])) urgentOps (apiRequest "c" 60) (seconds 100)
  have hurgent : ∃ q ∈ ((apiEngine []).run urgentOps).pending,
      (apiRequest "c" 60).priority.rank <
        effectiveRankAt q (seconds 100) ((apiEngine []).run urgentOps).agingThreshold ∧
      ((canGrant q.request (seconds 100)).exec ((apiEngine []).run urgentOps)).1 = .ok true := by
    decide +kernel
  have hgranted : isGranted ((admitAt (apiRequest "c" 60) (seconds 100)).exec
      ((apiEngine []).run urgentOps)).1 = true := by
    decide +kernel
  obtain ⟨q, hq, hrank, htrue⟩ := hurgent
  unfold isGranted at hgranted
  split at hgranted
  next grant hresult => exact hrespects ⟨grant, hresult⟩ q hq hrank htrue
  · cases hgranted

end Tally.Lease
