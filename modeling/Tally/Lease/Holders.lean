import Tally.Lease.Tickets

/-!
# Holders of the pools

The holders of a pool are the held leases that name it, and a co-residency pool never has more of
them than its capacity. Both hold of every engine that a run reaches, whatever the log does.
-/

namespace Tally.Lease

namespace LeaseEngine

/-- The shape of a pool that its name or its kind fixes. -/
structure ShapeOk (pool : String) (config : PoolConfig) : Prop where
  campaign : isCampaignPoolName pool → config = campaignMutexConfig
  mutex : config.resourceKind = .mutex → config.capacity = 1 ∧ config.predicate = .coResidency

structure HolderInv (engine : LeaseEngine) : Prop where
  /-- The holders of a pool are the leases that name it. -/
  holders : ∀ pool state, engine.pools.get? pool = some state → ∀ id,
    id ∈ state.holders ↔ ∃ held, engine.held.get? id = some held ∧ pool ∈ held.grant.pools
  /-- The pools of a lease are open. -/
  pools : ∀ id held, engine.held.get? id = some held → ∀ pool ∈ held.grant.pools,
    ∃ state, engine.pools.get? pool = some state
  capacity : ∀ pool state, engine.pools.get? pool = some state →
    state.config.predicate = .coResidency → state.holders.card ≤ state.config.capacity
  shape : ∀ pool state, engine.pools.get? pool = some state → ShapeOk pool state.config

theorem PoolPredicate.isCoResidency_iff {predicate : PoolPredicate} :
    predicate.isCoResidency ↔ predicate = .coResidency := by
  cases predicate <;> simp [PoolPredicate.isCoResidency]

/-- A co-residency pool that takes a request has room for one more holder. -/
theorem Fits.room {engine : LeaseEngine} {request : LeaseRequest} {now : Time}
    (h : engine.Fits request now) {pool : String} {state : RuntimePool} (hpool : pool ∈ request.pools)
    (hs : engine.pools.get? pool = some state) (hco : state.config.predicate = .coResidency) :
    state.holders.card < state.config.capacity := by
  obtain ⟨state', hs', htakes⟩ := h pool hpool
  rw [hs] at hs'
  cases hs'
  exact (RuntimePool.takes_coResidency hco).mp htakes

/-- An engine whose pools and leases look the same to the invariant satisfies it too. -/
theorem HolderInv.congr {a b : LeaseEngine} (h : a.HolderInv)
    (hpools : ∀ pool state', b.pools.get? pool = some state' → ∃ state,
      a.pools.get? pool = some state ∧ state'.config = state.config ∧ state'.holders = state.holders)
    (hopen : ∀ pool state, a.pools.get? pool = some state →
      ∃ state', b.pools.get? pool = some state')
    (hheld : ∀ id, (b.held.get? id).map (·.grant) = (a.held.get? id).map (·.grant)) :
    b.HolderInv := by
  have hgrant : ∀ {id held}, b.held.get? id = some held →
      ∃ old, a.held.get? id = some old ∧ old.grant = held.grant := fun {id held} hs => by
    have := hheld id
    rw [hs, Option.map_some, eq_comm, Option.map_eq_some_iff] at this
    exact this
  have hgrant' : ∀ {id old}, a.held.get? id = some old →
      ∃ held, b.held.get? id = some held ∧ held.grant = old.grant := fun {id old} hs => by
    have := hheld id
    rw [hs, Option.map_some, Option.map_eq_some_iff] at this
    exact this
  constructor
  · intro pool state' hs' id
    obtain ⟨state, hs, -, hholders⟩ := hpools pool state' hs'
    rw [hholders, h.holders pool state hs id]
    constructor
    · rintro ⟨held, hheld, hmem⟩
      obtain ⟨held', hheld', hg⟩ := hgrant' hheld
      exact ⟨held', hheld', hg ▸ hmem⟩
    · rintro ⟨held, hheld, hmem⟩
      obtain ⟨held', hheld', hg⟩ := hgrant hheld
      exact ⟨held', hheld', hg ▸ hmem⟩
  · intro id held hs pool hpool
    obtain ⟨old, hold, hg⟩ := hgrant hs
    obtain ⟨state, hstate⟩ := h.pools id old hold pool (hg ▸ hpool)
    exact hopen pool state hstate
  · intro pool state' hs' hco
    obtain ⟨state, hs, hconfig, hholders⟩ := hpools pool state' hs'
    rw [hholders, hconfig]
    exact h.capacity pool state hs (hconfig ▸ hco)
  · intro pool state' hs'
    obtain ⟨state, hs, hconfig, -⟩ := hpools pool state' hs'
    rw [hconfig]
    exact h.shape pool state hs

theorem HolderInv.of_frame {a b : LeaseEngine} (h : a.HolderInv) (hpools : b.pools = a.pools)
    (hheld : b.held = a.held) : b.HolderInv :=
  h.congr (fun pool state hs => ⟨state, hpools ▸ hs, rfl, rfl⟩)
    (fun pool state hs => ⟨state, hpools ▸ hs⟩) fun id => by rw [hheld]

theorem HolderInv.pruneOf {now : Time} {a b : LeaseEngine} (h : a.HolderInv)
    (hp : PruneOf now a b) : b.HolderInv := by
  refine h.congr (fun pool state' hs' => ?_) (fun pool state hs => ?_) fun id => by rw [hp.held_eq]
  · obtain ⟨state, hs, heq⟩ := hp.get?_inv hs'
    exact ⟨state, hs, by rcases heq with rfl | rfl <;> simp, by rcases heq with rfl | rfl <;> simp⟩
  · obtain ⟨state', hs', -⟩ := hp.get?_some hs
    exact ⟨state', hs'⟩

/-- Rewriting the yield demands leaves holders and grants alone. -/
theorem HolderInv.mapVals {a b : LeaseEngine} {f : String → HeldLease → HeldLease}
    (h : a.HolderInv) (hpools : b.pools = a.pools) (hheld : b.held = a.held.mapVals f)
    (hf : ∀ id held, (f id held).grant = held.grant) : b.HolderInv := by
  refine h.congr (fun pool state hs => ⟨state, hpools ▸ hs, rfl, rfl⟩)
    (fun pool state hs => ⟨state, hpools ▸ hs⟩) fun id => ?_
  rw [hheld, Dict.get?_mapVals, Option.map_map]
  congr 1
  funext held
  exact hf id held

theorem HolderInv.openPool {a : LeaseEngine} (h : a.HolderInv) {pool : String}
    (campaign : isCampaignPoolName pool) (absent : a.pools.get? pool = none) :
    { a with pools := a.pools.insert pool (RuntimePool.new campaignMutexConfig) }.HolderInv := by
  constructor
  · intro q state hs id
    change (a.pools.insert pool _).get? q = _ at hs
    rw [Dict.get?_insert] at hs
    split at hs
    · next hq =>
      cases hs
      subst hq
      refine ⟨fun hid => by simp [RuntimePool.new] at hid, ?_⟩
      rintro ⟨held, hheld, hmem⟩
      obtain ⟨state, hs⟩ := h.pools id held hheld q hmem
      rw [absent] at hs
      cases hs
    · exact h.holders q state hs id
  · intro id held hheld q hq
    change ∃ state, (a.pools.insert pool _).get? q = _
    obtain ⟨state, hs⟩ := h.pools id held hheld q hq
    rw [Dict.get?_insert]
    split
    · exact ⟨_, rfl⟩
    · exact ⟨state, hs⟩
  · intro q state hs hco
    change (a.pools.insert pool _).get? q = _ at hs
    rw [Dict.get?_insert] at hs
    split at hs
    · cases hs; simp [RuntimePool.new]
    · exact h.capacity q state hs hco
  · intro q state hs
    change (a.pools.insert pool _).get? q = _ at hs
    rw [Dict.get?_insert] at hs
    split at hs
    · cases hs
      exact ⟨fun _ => rfl, fun _ => ⟨rfl, rfl⟩⟩
    · exact h.shape q state hs

/-- A grant of a request that fits, under a ticket that is not held. -/
theorem HolderInv.granted {a : LeaseEngine} (h : a.HolderInv) {ticketId : String}
    {request : LeaseRequest} {now : Time} (hfits : a.Fits request now)
    (hfree : a.held.get? ticketId = none) : (a.granted ticketId request now).HolderInv := by
  have hheld : ∀ id, (a.granted ticketId request now).held.get? id =
      if id = ticketId then some { grant := a.grantFor ticketId request now, yieldDemands := ∅ }
      else a.held.get? id := fun id => Dict.get?_insert ..
  have hpools := a.get?_pools_granted ticketId request now
  constructor
  · intro pool state' hs' id
    rw [hpools, Option.map_eq_some_iff] at hs'
    obtain ⟨state, hs, rfl⟩ := hs'
    rw [hheld]
    by_cases hid : id = ticketId
    · have hnot : id ∉ state.holders := fun hmem => by
        obtain ⟨held, hheld, -⟩ := (h.holders pool state hs id).mp hmem
        rw [hid, hfree] at hheld
        cases hheld
      by_cases hpool : pool ∈ request.pools <;> simp [hid, hpool, grantFor]
      exact hid ▸ hnot
    · rw [if_neg hid, ← h.holders pool state hs id]
      by_cases hpool : pool ∈ request.pools <;> simp [hid, hpool]
  · intro id held hs pool hpool
    rw [hheld] at hs
    have hopen : ∃ state, a.pools.get? pool = some state := by
      split at hs
      · cases hs
        exact hfits.open pool hpool
      · exact h.pools id held hs pool hpool
    obtain ⟨state, hstate⟩ := hopen
    exact ⟨_, by rw [hpools, hstate]; rfl⟩
  · intro pool state' hs' hco
    rw [hpools, Option.map_eq_some_iff] at hs'
    obtain ⟨state, hs, rfl⟩ := hs'
    by_cases hpool : pool ∈ request.pools
    · have hroom := hfits.room hpool hs hco
      have hcard := state.holders.card_insert_le ticketId
      simp only [hpool, if_true]
      omega
    · simp only [hpool, if_false]
      exact h.capacity pool state hs hco
  · intro pool state' hs'
    rw [hpools, Option.map_eq_some_iff] at hs'
    obtain ⟨state, hs, rfl⟩ := hs'
    exact h.shape pool state hs

theorem HolderInv.finished {a : LeaseEngine} (h : a.HolderInv) {how : Finish} {leaseId : String}
    {held : HeldLease} (hkey : held.grant.leaseId = leaseId)
    (hget : a.held.get? leaseId = some held) : (a.finished how leaseId held).HolderInv := by
  have hpools := a.get?_pools_finished how leaseId held
  have hheld : ∀ id, (a.finished how leaseId held).held.get? id =
      if id = held.grant.leaseId then none else a.held.get? id := fun id => Dict.get?_erase ..
  constructor
  · intro pool state' hs' id
    rw [hpools, Option.map_eq_some_iff] at hs'
    obtain ⟨state, hs, rfl⟩ := hs'
    rw [hheld, hkey]
    by_cases hid : id = leaseId
    · have hiff := h.holders pool state hs id
      rw [hid, hget] at hiff
      by_cases hpool : pool ∈ held.grant.pools
      · simp [hid, hpool]
      · simpa [hid, hpool] using hiff
    · rw [if_neg hid, ← h.holders pool state hs id]
      by_cases hpool : pool ∈ held.grant.pools <;> simp [hid, hpool]
  · intro id old hs pool hpool
    rw [hheld] at hs
    split at hs
    · cases hs
    · obtain ⟨state, hstate⟩ := h.pools id old hs pool hpool
      exact ⟨_, by rw [hpools, hstate]; rfl⟩
  · intro pool state' hs' hco
    rw [hpools, Option.map_eq_some_iff] at hs'
    obtain ⟨state, hs, rfl⟩ := hs'
    have hcap := h.capacity pool state hs hco
    by_cases hpool : pool ∈ held.grant.pools
    · simp only [hpool, if_true]
      exact Finset.card_erase_le.trans hcap
    · simp only [hpool, if_false]
      exact hcap
  · intro pool state' hs'
    rw [hpools, Option.map_eq_some_iff] at hs'
    obtain ⟨state, hs, rfl⟩ := hs'
    exact h.shape pool state hs

end LeaseEngine

open LeaseEngine

theorem Move.holderInv {base : Nat} {now : Time} {own : LeaseRequest → Prop} {a b : LeaseEngine} (hmove : Move base now own a b)
    (ht : a.TicketInv) (h : a.HolderInv) : b.HolderInv := by
  cases hmove with
  | prune hp => exact h.pruneOf hp
  | openPool campaign absent => exact h.openPool campaign absent
  | grant _ _ _ fits => exact (h.granted fits ht.nextTicket_not_held).of_frame rfl rfl
  | promote select =>
    exact (h.granted select.fits (ht.not_held (List.mem_of_getElem? select.get))).of_frame rfl rfl
  | resort =>
    rcases a.refreshAgedOrder_cases now with hr | hr <;> rw [hr]
    · exact h.of_frame rfl rfl
    · exact h
  | finish get => exact h.finished (ht.key _ _ get) get
  | reconcile => exact h.mapVals rfl rfl fun _ _ => rfl
  | @cancel ticketId =>
    have hheld : (a.cancelled ticketId).held = a.held.mapVals fun _ held =>
      { held with yieldDemands := held.yieldDemands.erase ticketId } := rfl
    exact h.mapVals rfl hheld fun _ _ => rfl
  | _ => exact h.of_frame rfl rfl

/-! ## Construction -/

theorem campaignPoolPrefix_of_isCampaignPoolName {name : String} (h : isCampaignPoolName name) :
    campaignPoolPrefix.toList.isPrefixOf name.toList := by
  have hsplit : ['/'].intercalate (name.toList.splitOn '/') = name.toList :=
    List.intercalate_splitOn '/'
  unfold isCampaignPoolName at h
  split at h
  · next campaign owner repository heq =>
    simp only [Bool.and_eq_true, beq_iff_eq] at h
    rw [heq, h.1.1] at hsplit
    rw [← hsplit]
    simp [List.intercalate, campaignPoolPrefix]
  · cases h

theorem poolError_none {name : String} {config : PoolConfig} (h : poolError name config = none) :
    ShapeOk name (normalizeConfig name config) := by
  refine ⟨fun hcampaign => ?_, fun hmutex => ?_⟩
  · rw [normalizeConfig, if_pos (campaignPoolPrefix_of_isCampaignPoolName hcampaign)]
  · unfold poolError at h
    split at h
    · cases h
    · dsimp only at h
      split at h
      · cases h
      split at h
      · cases h
      next hshape =>
      have hcapacity : (normalizeConfig name config).capacity = 1 := by
        by_contra hne
        exact hshape ⟨hmutex, .inl hne⟩
      have hco : (normalizeConfig name config).predicate.isCoResidency := by
        by_contra hne
        exact hshape ⟨hmutex, .inr (by simpa using hne)⟩
      exact ⟨hcapacity, PoolPredicate.isCoResidency_iff.mp hco⟩

section New

variable {epoch yieldGrace agingThreshold : Nat} {pools : Dict String PoolConfig}
  {events : Option LeaseEventLog} {engine : LeaseEngine}

/-- The engine that the constructor returns. -/
theorem LeaseEngine.new_eq
    (h : newWithAgingThreshold epoch yieldGrace agingThreshold pools events = .ok engine) :
    (∀ name config, pools.get? name = some config → poolError name config = none) ∧ engine =
      { epoch, yieldGrace, agingThreshold, events
        pools := pools.mapVals fun name config =>
          RuntimePool.new (normalizeConfig name config) } := by
  unfold newWithAgingThreshold at h
  split at h
  · cases h
  split at h
  · cases h
  split at h
  · cases h
  split at h
  · cases h
  next hnone =>
  cases h
  refine ⟨fun name config hs => ?_, rfl⟩
  exact List.findSome?_eq_none_iff.mp hnone (name, config) (pools.mem_entries_iff.mpr hs)

theorem LeaseEngine.new_ticketInv
    (h : newWithAgingThreshold epoch yieldGrace agingThreshold pools events = .ok engine) :
    engine.TicketInv := by
  obtain ⟨-, rfl⟩ := new_eq h
  exact ⟨Nat.one_pos, by simp [tickets, pendingIds, finishedIds, Dict.keys],
    by simp [tickets, pendingIds, finishedIds, Dict.keys], by simp, by simp⟩

theorem LeaseEngine.new_holderInv
    (h : newWithAgingThreshold epoch yieldGrace agingThreshold pools events = .ok engine) :
    engine.HolderInv := by
  obtain ⟨hpools, rfl⟩ := new_eq h
  have hget : ∀ {pool state}, (pools.mapVals fun name config =>
      RuntimePool.new (normalizeConfig name config)).get? pool = some state →
      state.holders = ∅ ∧ ShapeOk pool state.config := fun hs => by
    rw [Dict.get?_mapVals, Option.map_eq_some_iff] at hs
    obtain ⟨config, hconfig, rfl⟩ := hs
    exact ⟨rfl, poolError_none (hpools _ config hconfig)⟩
  constructor
  · intro pool state hs id
    simp [(hget hs).1]
  · intro id held hs
    cases hs
  · intro pool state hs _
    simp [(hget hs).1]
  · intro pool state hs
    exact (hget hs).2

end New

/-- Holders and capacities along every run from a fresh engine, whatever the appends do. -/
theorem LeaseEngine.run_holderInv {engine : LeaseEngine} (ht : engine.TicketInv)
    (h : engine.HolderInv) (ops : List Op) : (engine.run ops).HolderInv :=
  (run_invariant (P := fun engine => engine.TicketInv ∧ engine.HolderInv)
    (fun hmove h => ⟨hmove.ticketInv h.1, hmove.holderInv h.1 h.2⟩) ⟨ht, h⟩ ops).2

/-- A mutex, and so every campaign pool, has at most one holder. -/
theorem LeaseEngine.HolderInv.card_le_one {engine : LeaseEngine} (h : engine.HolderInv)
    {pool : String} {state : RuntimePool} (hs : engine.pools.get? pool = some state)
    (hmutex : state.config.resourceKind = .mutex ∨ isCampaignPoolName pool) :
    state.holders.card ≤ 1 := by
  have hshape := h.shape pool state hs
  have hkind : state.config.resourceKind = .mutex := by
    rcases hmutex with hmutex | hcampaign
    · exact hmutex
    · rw [hshape.campaign hcampaign]; rfl
  obtain ⟨hcapacity, hco⟩ := hshape.mutex hkind
  exact hcapacity ▸ h.capacity pool state hs hco

/-- The ticket is in exactly one place. -/
def LeaseEngine.InOnePlace (engine : LeaseEngine) (t : String) : Prop :=
  (t ∈ engine.pendingIds ∧ t ∉ engine.held.keys ∧ t ∉ engine.finishedIds) ∨
    (t ∉ engine.pendingIds ∧ t ∈ engine.held.keys ∧ t ∉ engine.finishedIds) ∨
    (t ∉ engine.pendingIds ∧ t ∉ engine.held.keys ∧ t ∈ engine.finishedIds)

theorem LeaseEngine.TicketInv.inOnePlace {engine : LeaseEngine} (h : engine.TicketInv)
    {t : String} (ht : t ∈ engine.tickets) : engine.InOnePlace t := by
  obtain ⟨hactive, -, hfinished⟩ := List.nodup_append.mp h.nodup
  obtain ⟨-, -, hheld⟩ := List.nodup_append.mp hactive
  have hpf : t ∈ engine.pendingIds → t ∉ engine.finishedIds := fun hp hf =>
    hfinished t (List.mem_append_right _ hp) t hf rfl
  have hhf : t ∈ engine.held.keys → t ∉ engine.finishedIds := fun hk hf =>
    hfinished t (List.mem_append_left _ hk) t hf rfl
  have hhp : t ∈ engine.held.keys → t ∉ engine.pendingIds := fun hk hp => hheld t hk t hp rfl
  rcases List.mem_append.mp ht with ht | ht
  · rcases List.mem_append.mp ht with ht | ht
    · exact .inr (.inl ⟨hhp ht, ht, hhf ht⟩)
    · exact .inl ⟨ht, fun hk => hhp hk ht, hpf ht⟩
  · exact .inr (.inr ⟨fun hp => hpf hp ht, fun hk => hhf hk ht, ht⟩)

/-- The state that any run of a fresh engine reaches. Appends may fail at any point: `events` comes
with its own schedule of fates. `LeaseEngine.new` is the case of the default aging threshold. -/
theorem run_holders_and_tickets {epoch yieldGrace agingThreshold : Nat}
    {pools : Dict String PoolConfig} {events : Option LeaseEventLog} {engine : LeaseEngine}
    (hnew : LeaseEngine.newWithAgingThreshold epoch yieldGrace agingThreshold pools events =
      .ok engine) (ops : List Op) :
    (∀ pool state, (engine.run ops).pools.get? pool = some state → ∀ id, id ∈ state.holders ↔
      ∃ held, (engine.run ops).held.get? id = some held ∧ pool ∈ held.grant.pools) ∧
    (∀ pool state, (engine.run ops).pools.get? pool = some state →
      (state.config.predicate = .coResidency → state.holders.card ≤ state.config.capacity) ∧
      (state.config.resourceKind = .mutex ∨ isCampaignPoolName pool → state.holders.card ≤ 1)) ∧
    ((engine.run ops).held.keys ++ (engine.run ops).pendingIds).Nodup ∧
    (engine.returned ops).Nodup ∧
    ∀ t ∈ engine.returned ops, (engine.run ops).InOnePlace t := by
  have ht := LeaseEngine.new_ticketInv hnew
  have hinv := run_holderInv ht (LeaseEngine.new_holderInv hnew) ops
  have htickets := run_ticketInv ht ops
  obtain ⟨hnodup, -, hmem⟩ := run_returned ht ops
  refine ⟨hinv.holders, fun pool state hs => ⟨hinv.capacity pool state hs, hinv.card_le_one hs⟩,
    (List.nodup_append.mp htickets.nodup).1, hnodup, fun t hreturned => ?_⟩
  exact htickets.inOnePlace (hmem t hreturned)

/-! A pool with a single slot. -/

def slotPools : Dict String PoolConfig := Dict.insert ∅ "cpu" { resource := some .slot }

def slotEngine (events : Option LeaseEventLog) : LeaseEngine :=
  { epoch := 1, yieldGrace := 1000, agingThreshold := 1000000, events
    pools := Dict.insert ∅ "cpu" (RuntimePool.new { resource := some .slot }) }

theorem slotEngine_new (events : Option LeaseEventLog) :
    LeaseEngine.newWithAgingThreshold 1 1000 1000000 slotPools events =
      .ok (slotEngine events) := rfl

def slotRequest (jobId : String) (schedulingGroup : LeaseSchedulingGroup := .standalone) :
    LeaseRequest :=
  { jobId, unit := jobId, pools := ["cpu"], priority := .medium, schedulingGroup }

/-- The promotion of the second request fails after its line has reached the log. -/
def slotLog : LeaseEventLog := { fates := [.written, .indeterminate, .written] }

def slotOps : List Op :=
  [.admitAt (slotRequest "a") 0, .admitAt (slotRequest "b") 1, .releaseAt "lease-1-1" 1 2,
    .admitAt (slotRequest "c") 3]

theorem run_holders_and_tickets_slot :
    (slotEngine (some slotLog)).returned slotOps = ["lease-1-1", "lease-1-2", "lease-1-3"] ∧
      ∀ t ∈ (slotEngine (some slotLog)).returned slotOps,
        ((slotEngine (some slotLog)).run slotOps).InOnePlace t :=
  ⟨by decide +kernel, (run_holders_and_tickets (slotEngine_new _) slotOps).2.2.2.2⟩

end Tally.Lease
