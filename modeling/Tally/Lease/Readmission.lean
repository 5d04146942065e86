import Tally.Lease.Ledger

/-!
# Adopted work after a restart

The units that an engine had let run go on running while it is down. The engine that follows knows
nothing of them but the log, and admits them anew. It has room for all of them, in any order: the
holders were within the capacities, and the window debits are in the log under their admission keys.
-/

namespace Tally.Lease

open LeaseEngine

/-! ## What a held lease stands for -/

/-- A lease whose request would pass the checks of an admission again, at no cost. -/
structure LeaseEngine.HeldOk (engine : LeaseEngine) (grant : LeaseGrant) : Prop where
  named : isBlank grant.jobId = false ∧ isBlank grant.unit = false
  canonical : Poolset.Canonical grant.pools
  pools : ∀ pool ∈ grant.pools, ∃ state, engine.pools.get? pool = some state
  window : ∀ pool ∈ grant.pools, ∀ state window, engine.pools.get? pool = some state →
    state.config.predicate = .windowedConsumption window →
      grant.consumptionEstimate.isSome ∧ window.windowSec ≤ maxDurationSec ∧
        ∀ key, grant.admissionKey = some key → key ∈ engine.debitedAdmissions

structure LeaseEngine.Adoptable (pools : Dict String PoolConfig) (engine : LeaseEngine) : Prop where
  holders : engine.HolderInv
  held : ∀ id held, engine.held.get? id = some held → engine.HeldOk held.grant
  /-- A pool is configured or a campaign pool. -/
  origin : ∀ pool state, engine.pools.get? pool = some state →
    (∃ config, pools.get? pool = some config) ∨ isCampaignPoolName pool
  small : engine.nextSequence ≤ u64Max
  /-- The constructor has nothing against the configuration. -/
  sound : ∀ name config, pools.get? name = some config → poolError name config = none

theorem LeaseEngine.Account.keys_mono {now : Time} {a b : LeaseEngine} (h : Account now a b) :
    a.debitedAdmissions ⊆ b.debitedAdmissions := by
  cases h with
  | prune hp => rw [hp.debitedAdmissions_eq]
  | quiet events keys => rw [keys]
  | attempt offered failed events keys => rw [keys]
  | @charge ticketId request offered logged events keys =>
    rw [keys, debitedAdmissions_granted]
    cases chargedKey (a.grantFor ticketId request now) (a.debitsFor request now) with
    | none => exact subset_rfl
    | some key => exact Finset.subset_insert ..

/-- The windowed pools of a lease after a move were there before it. -/
theorem Move.get?_config_inv {base : Nat} {now : Time} {own : LeaseRequest → Prop} {a b : LeaseEngine}
    (hmove : Move base now own a b) {pool : String} {state state' : RuntimePool}
    (hs : a.pools.get? pool = some state) (hs' : b.pools.get? pool = some state') :
    state'.config = state.config := by
  obtain ⟨state'', hs'', hconfig⟩ := hmove.get?_config hs
  rw [hs'] at hs''
  cases hs''
  exact hconfig

theorem LeaseEngine.HeldOk.move {base : Nat} {now : Time} {own : LeaseRequest → Prop}
    {a b : LeaseEngine} {grant : LeaseGrant} (h : a.HeldOk grant) (hmove : Move base now own a b)
    (hkeys : a.debitedAdmissions ⊆ b.debitedAdmissions) : b.HeldOk grant := by
  refine ⟨h.named, h.canonical, fun pool hpool => ?_, fun pool hpool state' window hs' hwindow => ?_⟩
  · obtain ⟨state, hs⟩ := h.pools pool hpool
    obtain ⟨state', hs', -⟩ := hmove.get?_config hs
    exact ⟨state', hs'⟩
  · obtain ⟨state, hs⟩ := h.pools pool hpool
    rw [hmove.get?_config_inv hs hs'] at hwindow
    obtain ⟨hestimate, hsec, hdebited⟩ := h.window pool hpool state window hs hwindow
    exact ⟨hestimate, hsec, fun key hkey => hkeys (hdebited key hkey)⟩

/-- A windowed pool that takes a request has a window that can be computed. -/
theorem LeaseEngine.Fits.windowSec_le {engine : LeaseEngine} {request : LeaseRequest} {now : Time}
    (h : engine.Fits request now) {pool : String} {state : RuntimePool}
    {window : WindowedConsumptionPredicate} (hpool : pool ∈ request.pools)
    (hs : engine.pools.get? pool = some state)
    (hwindow : state.config.predicate = .windowedConsumption window) :
    window.windowSec ≤ maxDurationSec := by
  obtain ⟨state', hs', htakes⟩ := h pool hpool
  rw [hs] at hs'
  cases hs'
  exact ((RuntimePool.takes_windowed hwindow).mp htakes).1

/-- A grant on a windowed pool leaves its admission key debited. -/
theorem LeaseEngine.mem_debitedAdmissions_granted {a : LeaseEngine} {ticketId : String}
    {request : LeaseRequest} {now : Time} {pool key : String} (hpool : pool ∈ request.pools)
    (hwindowed : a.isWindowedPool pool) (hkey : request.admissionKey = some key) :
    key ∈ (a.granted ticketId request now).debitedAdmissions := by
  rw [debitedAdmissions_granted]
  by_cases hdebited : key ∈ a.debitedAdmissions
  · cases chargedKey (a.grantFor ticketId request now) (a.debitsFor request now) with
    | none => exact hdebited
    | some new => exact Finset.mem_insert_of_mem hdebited
  · have hfresh : a.alreadyDebited request.admissionKey = false := by
      rw [hkey]
      exact decide_eq_false hdebited
    have hne : (a.debitsFor request now).isEmpty = false := by
      rw [debitsFor, hfresh, if_neg Bool.false_ne_true, List.isEmpty_eq_false_iff, ne_eq,
        List.map_eq_nil_iff, List.filter_eq_nil_iff]
      exact fun hnone => hnone pool hpool hwindowed
    have hcharged : chargedKey (a.grantFor ticketId request now) (a.debitsFor request now) =
        some key := by
      rw [chargedKey, hne]
      exact hkey
    rw [hcharged]
    exact Finset.mem_insert_self ..

theorem LeaseEngine.Adoptable.step {base : Nat} {pools : Dict String PoolConfig} {now : Time}
    {own : LeaseRequest → Prop} {a b : LeaseEngine} (h : a.Adoptable pools)
    (hmove : Move base now own a b) (htickets : a.TicketInv) (hqueue : a.QueueOk) :
    b.Adoptable pools := by
  have hkeys := (hmove.account hqueue).keys_mono
  refine ⟨hmove.holderInv htickets h.holders, fun id held hs => ?_, fun pool state hs => ?_, ?_,
    h.sound⟩
  · rcases hmove.held_cases hs with ⟨old, hold, hgrant⟩ | ⟨request, hgrant, hfits, hok, hdebits⟩
    · rw [← hgrant]
      exact (h.held id old hold).move hmove hkeys
    · have hadmissible : a.Admissible request := by
        rcases hok with hok | ⟨p, hp, rfl⟩
        · exact hok
        · exact hqueue p hp
      rw [hgrant]
      refine ⟨hadmissible.named, hadmissible.canonical, ?_, ?_⟩
      · intro pool hpool
        obtain ⟨state, hs⟩ := hadmissible.pools pool hpool
        obtain ⟨state', hs', -⟩ := hmove.get?_config hs
        exact ⟨state', hs'⟩
      · intro pool hpool state' window hs' hwindow
        obtain ⟨state, hs⟩ := hadmissible.pools pool hpool
        rw [hmove.get?_config_inv hs hs'] at hwindow
        have hwindowed : a.isWindowedPool pool := isWindowedPool_iff.mpr ⟨state, window, hs, hwindow⟩
        refine ⟨hadmissible.estimate pool hpool hwindowed, hfits.windowSec_le hpool hs hwindow, ?_⟩
        intro key hkey
        rw [hdebits]
        exact mem_debitedAdmissions_granted hpool hwindowed hkey
  · cases hmove with
    | prune hp =>
      obtain ⟨old, hold, -⟩ := hp.get?_inv hs
      exact h.origin pool old hold
    | @openPool q campaign absent =>
      rw [Dict.get?_insert] at hs
      split at hs
      · next hq =>
        subst hq
        exact .inr campaign
      · exact h.origin pool state hs
    | @grant request =>
      replace hs := (get?_pools_granted a a.nextTicket request now pool).symm.trans hs
      rw [Option.map_eq_some_iff] at hs
      obtain ⟨old, hold, -⟩ := hs
      exact h.origin pool old hold
    | @promote index p =>
      replace hs := (get?_pools_granted a p.ticketId p.request now pool).symm.trans hs
      rw [Option.map_eq_some_iff] at hs
      obtain ⟨old, hold, -⟩ := hs
      exact h.origin pool old hold
    | @finish how leaseId held get =>
      rw [get?_pools_finished, Option.map_eq_some_iff] at hs
      obtain ⟨old, hold, -⟩ := hs
      exact h.origin pool old hold
    | resort =>
      rcases a.refreshAgedOrder_cases now with hr | hr <;> rw [hr] at hs <;>
        exact h.origin pool state hs
    | _ => exact h.origin pool state hs
  · cases hmove with
    | prune hp => exact hp.nextSequence_eq.trans_le h.small
    | skip small => exact small
    | grant _ small => exact small
    | grantFailed _ small => exact small
    | queue _ small => exact small
    | resort =>
      rcases a.refreshAgedOrder_cases now with hr | hr <;> rw [hr]
      · exact h.small
      · exact h.small
    | _ => exact h.small

theorem World.Reached.adoptable {pools : Dict String PoolConfig} {fates : List AppendFate}
    {time : Time} {world : World} (h : World.Reached pools fates time world) :
    world.engine.Adoptable pools := by
  suffices hall : world.engine.Books pools time ∧ world.engine.Adoptable pools from hall.2
  refine h.invariant (P := fun time world => world.engine.Books pools time ∧
    world.engine.Adoptable pools) ?_ ?_ ?_ ?_
  · intro epoch yieldGrace agingThreshold now engine hnew
    refine ⟨new_books hnew now, ?_⟩
    have hholders := new_holderInv hnew
    obtain ⟨hsound, rfl⟩ := new_eq hnew
    refine ⟨hholders, fun id held hs => ?_, fun pool state hs => .inl ?_, ?_, hsound⟩
    · cases hs
    · rw [Dict.get?_mapVals, Option.map_eq_some_iff] at hs
      obtain ⟨config, hconfig, -⟩ := hs
      exact ⟨config, hconfig⟩
    · show 1 ≤ u64Max
      decide
  · rintro time now world hle ⟨hbooks, hadoptable⟩
    exact ⟨hbooks.wait hle, hadoptable⟩
  · rintro base now own engine world hmove ⟨hbooks, hadoptable⟩
    exact ⟨hbooks.step hmove, hadoptable.step hmove hbooks.tickets hbooks.queue⟩
  · rintro now world log engine epoch yieldGrace agingThreshold witnessRecords ⟨hbooks, hadoptable⟩
      hlog _ hdurable
    obtain ⟨log', hlog', hread⟩ := hbooks.events
    rw [hlog] at hlog'
    cases hlog'
    obtain ⟨-, herror, snapshot, -, hrebuilt⟩ := fromDurable_rebuilt hread hdurable
    obtain ⟨hheld, -, -, hnext⟩ := hrebuilt.fresh
    refine ⟨hbooks.restart hlog hread hrebuilt, hrebuilt.holderInv herror, fun id held hs => ?_,
      fun pool state hs => ?_, ?_, hadoptable.sound⟩
    · change engine.held.get? id = _ at hs
      rw [hheld] at hs
      cases hs
    · change engine.pools.get? pool = _ at hs
      rw [hrebuilt.pools, Option.map_eq_some_iff] at hs
      obtain ⟨config, hconfig, -⟩ := hs
      rcases foldl_reopenCampaignPools_reopens log.lines pools pool with heq | ⟨-, hcampaign, -⟩
      · exact .inl ⟨config, heq ▸ hconfig⟩
      · exact .inr hcampaign
    · change engine.nextSequence ≤ u64Max
      rw [hnext]
      decide

theorem poolError_campaign {name : String} (h : isCampaignPoolName name) :
    poolError name campaignMutexConfig = none := by
  have hnormal : normalizeConfig name campaignMutexConfig = campaignMutexConfig := by
    unfold normalizeConfig
    split <;> rfl
  simp only [poolError, h, hnormal, Bool.not_true, Bool.and_false]
  rfl

/-- A restart succeeds whenever the rebuild does. -/
theorem fromDurable_ok {epoch yieldGrace agingThreshold witnessRecords : Nat}
    {pools : Dict String PoolConfig} {log : LeaseEventLog} {now : Time}
    {snapshot : WindowUsageSnapshot} (hread : Readable log)
    (hsnapshot : rebuildWindowUsage pools log witnessRecords now = .ok snapshot)
    (hsound : ∀ name config, pools.get? name = some config → poolError name config = none)
    (hepoch : 0 < epoch) (hgrace : 0 < yieldGrace) (haging : 0 < agingThreshold) :
    ∃ engine, fromDurableWithAgingThreshold epoch yieldGrace agingThreshold pools log witnessRecords
      now = .ok engine := by
  have hreopens := foldl_reopenCampaignPools_reopens log.lines pools
  have hnone : ((log.lines.foldl reopenCampaignPools pools).entries.findSome? fun entry =>
      poolError entry.1 entry.2) = none := by
    rw [List.findSome?_eq_none_iff]
    rintro ⟨name, config⟩ hentry
    rw [Dict.mem_entries_iff] at hentry
    rcases hreopens name with heq | ⟨-, hcampaign, hsome⟩
    · exact hsound name config (heq ▸ hentry)
    · rw [hsome] at hentry
      cases hentry
      exact poolError_campaign hcampaign
  unfold fromDurableWithAgingThreshold
  rw [hread.read (rebuildWindowUsage_of hread hsnapshot).1]
  simp only [hreopens.rebuildWindowUsage_eq, hsnapshot]
  unfold newWithAgingThreshold
  rw [if_neg hepoch.ne', if_neg hgrace.ne', if_neg haging.ne', hnone]
  exact ⟨_, rfl⟩

/-! ## Admitting the held leases again -/

/-- The request of a held lease, as it is made again after a restart: the same job, pools, admission
key and estimate. -/
structure Readmits (grant : LeaseGrant) (request : LeaseRequest) : Prop where
  job : request.jobId = grant.jobId ∧ request.unit = grant.unit
  pools : request.pools.Perm grant.pools
  key : request.admissionKey = grant.admissionKey
  estimate : request.consumptionEstimate = grant.consumptionEstimate

/-- Each request is granted at once, in this order. -/
def LeaseEngine.AllGranted (engine : LeaseEngine) : List (LeaseRequest × Time) → Prop
  | [] => True
  | (request, now) :: rest =>
    (∃ grant, ((admitAt request now).exec engine).1 = .ok (.granted grant)) ∧
      AllGranted ((admitAt request now).exec engine).2 rest

/-- The lease of the old engine names the pool. -/
def LeaseEngine.names (old : LeaseEngine) (pool id : String) : Bool :=
  (old.held.get? id).any fun held => decide (pool ∈ held.grant.pools)

/-- The pools of the new engine once the leases `done` of the old one have been admitted again. -/
structure LeaseEngine.PoolsReady (old : LeaseEngine) (done : List String)
    (pools : Dict String RuntimePool) : Prop where
  config : ∀ pool state, old.pools.get? pool = some state →
    (pools.get? pool = none ∧ isCampaignPoolName pool ∧ state.config = campaignMutexConfig) ∨
      ∃ state', pools.get? pool = some state' ∧ state'.config = state.config
  holders : ∀ pool state, pools.get? pool = some state →
    state.holders.card ≤ (done.filter (old.names pool)).length
  budget : ∀ pool state window, pools.get? pool = some state →
    state.config.predicate = .windowedConsumption window →
      usageOf state.debits ≤ min u64Max window.consumptionCap
  /-- It can be told when the debits leave their windows. -/
  dated : ∀ pool state window, pools.get? pool = some state →
    state.config.predicate = .windowedConsumption window → ∀ debit ∈ state.debits,
      Dated (window.windowSec * nanosPerSec) debit

/-- The new engine once the leases `done` of the old one have been admitted again. -/
structure LeaseEngine.Ready (old : LeaseEngine) (done : List String) (engine : LeaseEngine) :
    Prop where
  next : engine.nextSequence = done.length + 1
  events : Reliable engine.events
  keys : old.debitedAdmissions ⊆ engine.debitedAdmissions
  pools : old.PoolsReady done engine.pools

theorem validatePools_of {engine : LeaseEngine} {request : LeaseRequest} {pools : List String}
    (h : ∀ pool ∈ pools, (engine.pools.get? pool = none ∧ isCampaignPoolName pool) ∨
      ∃ state, engine.pools.get? pool = some state ∧
        (state.config.predicate.isWindowed → request.consumptionEstimate.isSome)) :
    engine.validatePools request pools = .ok () := by
  induction pools with
  | nil => rfl
  | cons pool rest ih =>
    have hrest := ih fun q hq => h q (List.mem_cons_of_mem _ hq)
    rw [validatePools]
    rcases h pool List.mem_cons_self with ⟨hnone, hcampaign⟩ | ⟨state, hs, hestimate⟩
    · simp only [hnone, hcampaign, if_true]
      exact hrest
    · rw [hs]
      dsimp only
      cases hwindowed : state.config.predicate.isWindowed with
      | false => simpa using hrest
      | true => simpa [Option.isNone_iff_eq_none, Option.isSome_iff_ne_none.mp (hestimate hwindowed)]
          using hrest

/-- A windowed pool takes what its budget allows. -/
theorem takes_of_budget {state : RuntimePool} {request : LeaseRequest}
    {window : WindowedConsumptionPredicate} (now : Time)
    (hwindow : state.config.predicate = .windowedConsumption window)
    (hsec : window.windowSec ≤ maxDurationSec)
    (hbudget : usageOf state.debits + request.consumptionEstimate.getD 0 ≤
      min u64Max window.consumptionCap) : state.Takes request now := by
  have hsub := usageOf_le_of_sublist (RuntimePool.prune_debits_sublist state now)
  unfold RuntimePool.Takes
  rw [hwindow]
  exact ⟨hsec, by omega⟩

/-- A pool with debits that are dated can be pruned. -/
theorem pruneDebits_of_dated {state : RuntimePool} {window : WindowedConsumptionPredicate} (now : Time)
    (hwindow : state.config.predicate = .windowedConsumption window)
    (hsec : window.windowSec ≤ maxDurationSec)
    (hdated : ∀ debit ∈ state.debits, Dated (window.windowSec * nanosPerSec) debit) :
    (pruneDebits state now).1 = .ok () := by
  refine (pruneDebits_windowed hwindow now).2.mpr ⟨hsec, fun debit hdebit => ?_⟩
  exact hdated debit ((List.dropWhile_sublist _).subset (List.mem_of_mem_head? hdebit))

theorem get?_foldl_openCampaignPool_cases (rest : List String) (pools : Dict String RuntimePool)
    (q : String) :
    (rest.foldl openCampaignPool pools).get? q = pools.get? q ∨
      pools.get? q = none ∧
        (rest.foldl openCampaignPool pools).get? q = some (RuntimePool.new campaignMutexConfig) := by
  induction rest generalizing pools with
  | nil => exact .inl rfl
  | cons pool rest ih =>
    have hone : (openCampaignPool pools pool).get? q = pools.get? q ∨
        pools.get? q = none ∧
          (openCampaignPool pools pool).get? q = some (RuntimePool.new campaignMutexConfig) := by
      unfold openCampaignPool
      split
      · cases hs : pools.get? pool with
        | some state => exact .inl rfl
        | none =>
          dsimp only
          rw [Dict.get?_insert]
          split
          · next hq =>
            subst hq
            exact .inr ⟨hs, rfl⟩
          · exact .inl rfl
      · exact .inl rfl
    rw [List.foldl_cons]
    rcases ih (openCampaignPool pools pool) with heq | ⟨hnone, hsome⟩
    · rw [heq]
      exact hone
    · rcases hone with heq | ⟨-, hopen⟩
      · exact .inr ⟨heq ▸ hnone, hsome⟩
      · rw [hopen] at hnone
        cases hnone

namespace LeaseEngine

section Ready

variable {pools : Dict String PoolConfig} {old engine : LeaseEngine} {done : List String}
  {id : String} {held : HeldLease} {request : LeaseRequest} {now : Time}

/-- Opening campaign pools. -/
theorem PoolsReady.opened {open' : Dict String RuntimePool} (h : old.PoolsReady done open')
    (rest : List String) : old.PoolsReady done (rest.foldl openCampaignPool open') := by
  have hcases := get?_foldl_openCampaignPool_cases rest open'
  constructor
  · intro pool state hs
    rcases hcases pool with heq | ⟨hnone, hnew⟩
    · rw [heq]
      exact h.config pool state hs
    · rcases h.config pool state hs with ⟨-, -, hconfig⟩ | ⟨state', hs', -⟩
      · exact .inr ⟨_, hnew, hconfig.symm⟩
      · rw [hnone] at hs'
        cases hs'
  · intro pool state hs
    rcases hcases pool with heq | ⟨-, hnew⟩
    · exact h.holders pool state (heq ▸ hs)
    · rw [hnew] at hs
      cases hs
      exact Nat.zero_le _
  · intro pool state window hs hwindow
    rcases hcases pool with heq | ⟨-, hnew⟩
    · exact h.budget pool state window (heq ▸ hs) hwindow
    · rw [hnew] at hs
      cases hs
      cases hwindow
  · intro pool state window hs hwindow
    rcases hcases pool with heq | ⟨-, hnew⟩
    · exact h.dated pool state window (heq ▸ hs) hwindow
    · rw [hnew] at hs
      cases hs
      cases hwindow

theorem PoolsReady.pruneOf {a b : LeaseEngine} (h : old.PoolsReady done a.pools)
    (hp : PruneOf now a b) : old.PoolsReady done b.pools := by
  have hback : ∀ {pool state'}, b.pools.get? pool = some state' → ∃ state,
      a.pools.get? pool = some state ∧ state'.config = state.config ∧
        state'.holders = state.holders ∧ state'.debits.Sublist state.debits := by
    intro pool state' hs'
    obtain ⟨state, hs, rfl | rfl⟩ := hp.get?_inv hs'
    · exact ⟨state', hs, rfl, rfl, .refl _⟩
    · exact ⟨state, hs, RuntimePool.prune_config .., RuntimePool.prune_holders ..,
        RuntimePool.prune_debits_sublist ..⟩
  constructor
  · intro pool state hs
    rcases h.config pool state hs with ⟨hnone, hcampaign, hconfig⟩ | ⟨before, hbefore, hconfig⟩
    · exact .inl ⟨hp.get?_none hnone, hcampaign, hconfig⟩
    · obtain ⟨state', hs', rfl | rfl⟩ := hp.get?_some hbefore
      · exact .inr ⟨state', hs', hconfig⟩
      · exact .inr ⟨_, hs', (RuntimePool.prune_config ..).trans hconfig⟩
  · intro pool state' hs'
    obtain ⟨state, hs, -, hholders, -⟩ := hback hs'
    rw [hholders]
    exact h.holders pool state hs
  · intro pool state' window hs' hwindow
    obtain ⟨state, hs, hconfig, -, hsub⟩ := hback hs'
    exact (usageOf_le_of_sublist hsub).trans (h.budget pool state window hs (hconfig ▸ hwindow))
  · intro pool state' window hs' hwindow debit hdebit
    obtain ⟨state, hs, hconfig, -, hsub⟩ := hback hs'
    exact h.dated pool state window hs (hconfig ▸ hwindow) debit (hsub.subset hdebit)

/-- A grant that debits nothing adds one holder to each pool of the lease. -/
theorem PoolsReady.granted {mid : LeaseEngine} {ticketId : String}
    (h : old.PoolsReady done mid.pools) (hfree : mid.debitsFor request now = [])
    (hname : ∀ pool, old.names pool id = decide (pool ∈ request.pools)) :
    old.PoolsReady (done ++ [id]) (mid.granted ticketId request now).pools := by
  have hget := fun pool => mid.get?_pools_granted ticketId request now pool
  simp only [hfree, List.filter_nil, List.append_nil] at hget
  have hback : ∀ {pool state'}, (mid.granted ticketId request now).pools.get? pool = some state' →
      ∃ state, mid.pools.get? pool = some state ∧ state'.config = state.config ∧
        state'.debits = state.debits ∧
        state'.holders.card ≤ state.holders.card + if pool ∈ request.pools then 1 else 0 := by
    intro pool state' hs'
    rw [hget, Option.map_eq_some_iff] at hs'
    obtain ⟨state, hs, rfl⟩ := hs'
    refine ⟨state, hs, rfl, rfl, ?_⟩
    dsimp only
    split
    · exact Finset.card_insert_le ..
    · exact Nat.le_refl _
  constructor
  · intro pool state hs
    rw [hget]
    rcases h.config pool state hs with ⟨hnone, hcampaign, hconfig⟩ | ⟨before, hbefore, hconfig⟩
    · exact .inl ⟨by rw [hnone]; rfl, hcampaign, hconfig⟩
    · rw [hbefore]
      exact .inr ⟨_, rfl, hconfig⟩
  · intro pool state' hs'
    obtain ⟨state, hs, -, -, hcard⟩ := hback hs'
    have hone : (List.filter (old.names pool) [id]).length =
        if pool ∈ request.pools then 1 else 0 := by
      by_cases hpool : pool ∈ request.pools <;> simp [hname, hpool]
    rw [List.filter_append, List.length_append, hone]
    exact hcard.trans (Nat.add_le_add_right (h.holders pool state hs) _)
  · intro pool state' window hs' hwindow
    obtain ⟨state, hs, hconfig, hdebits, -⟩ := hback hs'
    rw [hdebits]
    exact h.budget pool state window hs (hconfig ▸ hwindow)
  · intro pool state' window hs' hwindow
    obtain ⟨state, hs, hconfig, hdebits, -⟩ := hback hs'
    rw [hdebits]
    exact h.dated pool state window hs (hconfig ▸ hwindow)

/-- Leases that name a pool hold it. -/
theorem Adoptable.room (hold : old.Adoptable pools) (hnodup : (id :: done).Nodup)
    (hid : old.held.get? id = some held) {pool : String} (hpool : pool ∈ held.grant.pools)
    {state : RuntimePool} (hs : old.pools.get? pool = some state)
    (hco : state.config.predicate = .coResidency) :
    (done.filter (old.names pool)).length < state.config.capacity := by
  have hnames : (id :: done.filter (old.names pool)).Nodup := by
    obtain ⟨hnot, hdone⟩ := List.nodup_cons.mp hnodup
    exact List.nodup_cons.mpr ⟨fun hmem => hnot (List.mem_of_mem_filter hmem), hdone.filter _⟩
  have hsub : (id :: done.filter (old.names pool)).toFinset ⊆ state.holders := by
    intro t ht
    rw [List.mem_toFinset] at ht
    rw [hold.holders.holders pool state hs t]
    rcases List.mem_cons.mp ht with rfl | ht
    · exact ⟨held, hid, hpool⟩
    · have hname := (List.mem_filter.mp ht).2
      unfold names at hname
      cases hget : old.held.get? t with
      | none =>
        rw [hget] at hname
        cases hname
      | some other =>
        rw [hget] at hname
        exact ⟨other, rfl, of_decide_eq_true hname⟩
  have hcard := Finset.card_le_card hsub
  rw [List.toFinset_card_of_nodup hnames, List.length_cons] at hcard
  exact hcard.trans (hold.holders.capacity pool state hs hco)

/-- No more leases than tickets have been issued. -/
theorem Adoptable.length_lt (hold : old.Adoptable pools) (htickets : old.TicketInv)
    {ids : List String} (hnodup : ids.Nodup) (hheld : ∀ t ∈ ids, ∃ held, old.held.get? t = some held) :
    ids.length < u64Max := by
  have hsub : ids ⊆ (List.range' 1 (old.nextSequence - 1)).map (leaseTicket old.epoch) := by
    intro t ht
    have hticket : t ∈ old.tickets :=
      List.mem_append_left _ (List.mem_append_left _ ((Dict.mem_keys_iff _).mpr (hheld t ht)))
    obtain ⟨n, hpos, hlt, rfl⟩ := htickets.issued t hticket
    refine List.mem_map.mpr ⟨n, ?_, rfl⟩
    rw [List.mem_range'_1]
    omega
  have hlen := hnodup.length_le_of_subset hsub
  rw [List.length_map, List.length_range'] at hlen
  have hpos := htickets.positive
  have hsmall := hold.small
  omega

/-- A lease that is admitted again has been debited. -/
theorem Ready.debited (h : Ready old done engine) (hok : old.HeldOk held.grant)
    (hkey : held.grant.admissionKey.isSome) {pool : String} (hpool : pool ∈ held.grant.pools)
    {state : RuntimePool} {window : WindowedConsumptionPredicate}
    (hs : old.pools.get? pool = some state)
    (hwindow : state.config.predicate = .windowedConsumption window) :
    engine.alreadyDebited held.grant.admissionKey := by
  obtain ⟨key, hkey⟩ := Option.isSome_iff_exists.mp hkey
  rw [hkey]
  exact decide_eq_true (h.keys ((hok.window pool hpool state window hs hwindow).2.2 key hkey))

/-- A pool of the lease in the new engine, once its campaign pools are open. -/
theorem Ready.get?_opened (h : Ready old done engine) (hok : old.HeldOk held.grant)
    (hpools : request.pools = held.grant.pools) {pool : String} (hpool : pool ∈ held.grant.pools) :
    ∃ state state', old.pools.get? pool = some state ∧
      (engine.opened request).pools.get? pool = some state' ∧ state'.config = state.config := by
  obtain ⟨state, hs⟩ := hok.pools pool hpool
  rcases h.pools.config pool state hs with ⟨hnone, hcampaign, hconfig⟩ | ⟨state', hs', hconfig⟩
  · refine ⟨state, RuntimePool.new campaignMutexConfig, hs, ?_, hconfig.symm⟩
    exact get?_foldl_openCampaignPool (hpools ▸ hpool) hcampaign hnone
  · exact ⟨state, state', hs, get?_foldl_openCampaignPool_of_some hs', hconfig⟩

/-- The request of a held lease passes the checks of the new engine. -/
theorem Ready.canonicalizeRequest (h : Ready old done engine) (hok : old.HeldOk held.grant)
    (hreadmits : Readmits held.grant request) :
    engine.canonicalizeRequest request = .ok { request with pools := held.grant.pools } := by
  have hvalid : engine.validatePools { request with pools := held.grant.pools } held.grant.pools =
      .ok () := by
    apply validatePools_of
    intro pool hpool
    obtain ⟨state, hs⟩ := hok.pools pool hpool
    rcases h.pools.config pool state hs with ⟨hnone, hcampaign, -⟩ | ⟨state', hs', hconfig⟩
    · exact .inl ⟨hnone, hcampaign⟩
    · refine .inr ⟨state', hs', fun hwindowed => ?_⟩
      show request.consumptionEstimate.isSome
      rw [hreadmits.estimate]
      cases hwindow : state.config.predicate with
      | coResidency =>
        rw [hconfig, hwindow] at hwindowed
        cases hwindowed
      | windowedConsumption window => exact (hok.window pool hpool state window hs hwindow).1
  have hnamed : (isBlank request.jobId || isBlank request.unit) = false := by
    rw [hreadmits.job.1, hreadmits.job.2, hok.named.1, hok.named.2]
    rfl
  unfold LeaseEngine.canonicalizeRequest validateRequest
  rw [hok.canonical.canonicalize_perm hreadmits.pools]
  simp only [hnamed, Bool.false_eq_true, if_false, hvalid]

/-- The new engine has room for a lease that it has not admitted yet. -/
theorem Ready.fits (h : Ready old done engine) (hold : old.Adoptable pools)
    (hnodup : (id :: done).Nodup) (hid : old.held.get? id = some held)
    (hkey : held.grant.admissionKey.isSome) (hpools : request.pools = held.grant.pools)
    (hsame : request.admissionKey = held.grant.admissionKey) :
    (engine.opened request).Fits request now := by
  have hok := hold.held id held hid
  have hready := h.pools.opened request.pools
  intro pool hpool
  rw [hpools] at hpool
  obtain ⟨state, state', hs, hs', hconfig⟩ := h.get?_opened hok hpools hpool
  refine ⟨state', hs', ?_⟩
  cases hwindow : state.config.predicate with
  | coResidency =>
    have hroom := hold.room hnodup hid hpool hs hwindow
    rw [RuntimePool.takes_coResidency (hconfig ▸ hwindow), hconfig]
    exact (hready.holders pool state' hs').trans_lt hroom
  | windowedConsumption window =>
    have hdebited : (engine.opened request).alreadyDebited request.admissionKey := by
      rw [hsame]
      exact h.debited hok hkey hpool hs hwindow
    refine takes_of_budget now (hconfig ▸ hwindow) (hok.window pool hpool state window hs hwindow).2.1 ?_
    rw [effectiveRequest, if_pos hdebited]
    exact hready.budget pool state' window hs' (hconfig ▸ hwindow)

/-- Its pools can tell. -/
theorem Ready.not_stuck (h : Ready old done engine)
    (hfits : (engine.opened request).Fits request now) :
    ¬ (engine.opened request).Stuck request now := by
  have hready := h.pools.opened request.pools
  rintro ⟨pool, hpool, hstuck⟩
  obtain ⟨state', hs', htakes⟩ := hfits pool hpool
  rcases hstuck with hnone | ⟨state'', error, hs'', herror⟩
  · rw [hnone] at hs'
    cases hs'
  rw [hs'] at hs''
  cases hs''
  have hpruned : (pruneDebits state' now).1 = .ok () := by
    cases hwindow : state'.config.predicate with
    | coResidency => exact pruneDebits_coResidency hwindow now
    | windowedConsumption window =>
      exact pruneDebits_of_dated now hwindow ((RuntimePool.takes_windowed hwindow).mp htakes).1
        (hready.dated pool state' window hs' hwindow)
  rw [poolAllows_of_takes htakes hpruned pool] at herror
  cases herror

/-- Such a lease costs nothing. -/
theorem Ready.debitsFor {mid : LeaseEngine} (h : Ready old done engine)
    (hok : old.HeldOk held.grant) (hkey : held.grant.admissionKey.isSome)
    (hpools : request.pools = held.grant.pools) (hsame : request.admissionKey = held.grant.admissionKey)
    (hp : PruneOf now (engine.opened request) mid) : mid.debitsFor request now = [] := by
  unfold LeaseEngine.debitsFor
  split
  · rfl
  next hfresh =>
  rw [List.map_eq_nil_iff, List.filter_eq_nil_iff]
  intro pool hpool hwindowed
  rw [hpools] at hpool
  obtain ⟨state', window, hs', hwindow⟩ := isWindowedPool_iff.mp hwindowed
  obtain ⟨before, hbefore, hprune⟩ := hp.get?_inv hs'
  obtain ⟨state, state'', hs, hs'', hconfig⟩ := h.get?_opened hok hpools hpool
  rw [hs''] at hbefore
  cases hbefore
  have hwindow' : state.config.predicate = .windowedConsumption window := by
    rw [← hconfig, ← hwindow]
    rcases hprune with rfl | rfl <;> simp
  apply hfresh
  have hdebited := h.debited hok hkey hpool hs hwindow'
  rw [hsame]
  unfold alreadyDebited at hdebited ⊢
  rw [hp.debitedAdmissions_eq]
  exact hdebited

theorem Ready.granted {mid : LeaseEngine} (h : Ready old done engine) (hok : old.HeldOk held.grant)
    (hid : old.held.get? id = some held) (hkey : held.grant.admissionKey.isSome)
    (hpools : request.pools = held.grant.pools) (hsame : request.admissionKey = held.grant.admissionKey)
    (hp : PruneOf now (engine.opened request) mid) :
    Ready old (done ++ [id]) (mid.granted mid.nextTicket request now).bump := by
  have hfree := h.debitsFor hok hkey hpools hsame hp
  have hname : ∀ pool, old.names pool id = decide (pool ∈ request.pools) := by
    intro pool
    rw [names, hid, hpools]
    rfl
  constructor
  · show mid.nextSequence + 1 = _
    rw [hp.nextSequence_eq, List.length_append]
    exact congrArg (· + 1) h.next
  · show Reliable (appendLine mid.events _).2
    rw [hp.events_eq]
    exact (h.events.append _).2
  · intro key hmem
    show key ∈ (mid.granted mid.nextTicket request now).debitedAdmissions
    rw [debitedAdmissions_granted, hfree, hp.debitedAdmissions_eq]
    exact h.keys hmem
  · exact ((h.pools.opened request.pools).pruneOf (a := engine.opened request) hp).granted hfree hname

/-- One more lease is granted, at any time. -/
theorem Ready.admitted (now : Time) (h : Ready old done engine) (hold : old.Adoptable pools)
    (htickets : old.TicketInv) (hnodup : (id :: done).Nodup)
    (hdone : ∀ t ∈ done, ∃ held, old.held.get? t = some held)
    (hid : old.held.get? id = some held) (hkey : held.grant.admissionKey.isSome)
    (hreadmits : Readmits held.grant request) :
    (∃ grant, ((admitAt request now).exec engine).1 = .ok (.granted grant)) ∧
      Ready old (done ++ [id]) ((admitAt request now).exec engine).2 := by
  have hok := hold.held id held hid
  have hcanonical := h.canonicalizeRequest hok hreadmits
  have hfits : (engine.opened { request with pools := held.grant.pools }).Fits
      { request with pools := held.grant.pools } now :=
    h.fits hold hnodup hid hkey rfl hreadmits.key
  have hlength : (id :: done).length < u64Max := by
    refine hold.length_lt htickets hnodup fun t ht => ?_
    rcases List.mem_cons.mp ht with rfl | ht
    · exact ⟨held, hid⟩
    · exact hdone t ht
  rcases hexec : (admitAt request now).exec engine with ⟨result, engine'⟩
  -- of all exits only the grant is left
  cases admitAt_exit hexec with
  | invalid herror =>
    rw [hcanonical] at herror
    cases herror
  | overflow _ hfull =>
    rw [h.next] at hfull
    rw [List.length_cons] at hlength
    omega
  | failed hc _ _ hstuck =>
    rw [hcanonical] at hc
    cases hc
    exact absurd hstuck (h.not_stuck hfits)
  | @unlogged _ _ mid hc _ hp _ _ _ hfailed =>
    have hevents : mid.events = engine.events := hp.events_eq
    exact absurd ((hevents ▸ h.events).append _).1 hfailed
  | granted hc _ hp =>
    rw [hcanonical] at hc
    cases hc
    exact ⟨⟨_, rfl⟩, h.granted hok hid hkey rfl hreadmits.key hp⟩
  | queued hc _ hp _ hfull =>
    rw [hcanonical] at hc
    cases hc
    exact absurd ((fits_pruneOf hp).mpr hfits) hfull
  | unqueued hc _ hp _ hfull =>
    rw [hcanonical] at hc
    cases hc
    exact absurd ((fits_pruneOf hp).mpr hfits) hfull

end Ready

end LeaseEngine

theorem LeaseEngine.Ready.allGranted {pools : Dict String PoolConfig} {old engine : LeaseEngine}
    {done : List String} {readmissions : List (String × LeaseRequest × Time)}
    (h : Ready old done engine) (hold : old.Adoptable pools) (htickets : old.TicketInv)
    (hkeyed : ∀ id held, old.held.get? id = some held → held.grant.admissionKey.isSome)
    (hdone : ∀ t ∈ done, ∃ held, old.held.get? t = some held)
    (hnodup : (readmissions.map Prod.fst ++ done).Nodup)
    (hheld : ∀ entry ∈ readmissions, ∃ held, old.held.get? entry.1 = some held ∧
      Readmits held.grant entry.2.1) : engine.AllGranted (readmissions.map Prod.snd) := by
  induction readmissions generalizing engine done with
  | nil => trivial
  | cons entry rest ih =>
    obtain ⟨id, request, now⟩ := entry
    obtain ⟨held, hid, hreadmits⟩ := hheld _ List.mem_cons_self
    have hfirst : (id :: done).Nodup := by
      refine hnodup.sublist ?_
      rw [List.map_cons, List.cons_append]
      exact (List.sublist_append_right ..).cons_cons id
    have hrest : (rest.map Prod.fst ++ (done ++ [id])).Nodup := by
      refine (List.Perm.nodup_iff ?_).mp hnodup
      rw [List.map_cons, List.cons_append, ← List.append_assoc]
      exact (List.perm_append_singleton id _).symm
    obtain ⟨hgranted, hready⟩ := h.admitted now hold htickets hfirst hdone hid
      (hkeyed id held hid) hreadmits
    refine ⟨hgranted, ih hready ?_ hrest fun entry hentry => hheld entry (List.mem_cons_of_mem _ hentry)⟩
    intro t ht
    rcases List.mem_append.mp ht with ht | ht
    · exact hdone t ht
    · rw [List.mem_singleton.mp ht]
      exact ⟨held, hid⟩

/-- Any restart of the engine from its log at `now`, with appends that succeed from then on, comes up
and grants the requests of any leases that are held, in any order. -/
def AdoptsAll (pools : Dict String PoolConfig) (witnessRecords : Nat) (now : Time)
    (old : LeaseEngine) : Prop :=
  ∀ log epoch yieldGrace agingThreshold, old.events = some log → Reliable (some log) →
    old.epoch < epoch → 0 < yieldGrace → 0 < agingThreshold → ∃ engine,
      fromDurableWithAgingThreshold epoch yieldGrace agingThreshold pools log witnessRecords now =
        .ok engine ∧
      ∀ readmissions : List (String × LeaseRequest × Time), (readmissions.map Prod.fst).Nodup →
        (∀ entry ∈ readmissions, ∃ held, old.held.get? entry.1 = some held ∧
          Readmits held.grant entry.2.1) → engine.AllGranted (readmissions.map Prod.snd)

/-- Every lease that is held carries an admission key. -/
def LeaseEngine.Keyed (engine : LeaseEngine) : Prop :=
  ∀ id held, engine.held.get? id = some held → held.grant.admissionKey.isSome

/-- Adopted work is never queued, as long as the clock does not run backwards, no attempt that is
reported failed leaves anything in the log, and the ends of the windows can be computed. -/
theorem adopted_work_is_granted {pools : Dict String PoolConfig} {fates : List AppendFate}
    {time now : Time} {world : World} (h : World.Reached pools fates time world) (hnow : time ≤ now)
    (hhonest : ∀ fate ∈ fates, fate.honest) (hkeyed : world.engine.Keyed)
    (hdates : world.engine.Dates pools) (witnessRecords : Nat) :
    AdoptsAll pools witnessRecords now world.engine := by
  intro log epoch yieldGrace agingThreshold hlog hreliable hepoch hgrace haging
  have hbooks := h.books.wait hnow
  have hexact := (h.exact hhonest).wait hnow
  have hadoptable := h.adoptable
  obtain ⟨log', hlog', hread⟩ := hbooks.events
  rw [hlog] at hlog'
  cases hlog'
  obtain ⟨log', snapshot, hlog', hsnapshot, hkeys, -⟩ :=
    hexact.survivesExactly hbooks hdates witnessRecords
  rw [hlog] at hlog'
  cases hlog'
  have hof := (rebuildWindowUsage_of hread hsnapshot).2
  obtain ⟨engine, hengine⟩ := fromDurable_ok hread hsnapshot hadoptable.sound
    (Nat.zero_lt_of_lt hepoch) hgrace haging
  refine ⟨engine, hengine, fun readmissions hnodup hheld => ?_⟩
  obtain ⟨rfl, herror, snapshot', hsnapshot', hrebuilt⟩ := fromDurable_rebuilt hread hengine
  rw [hsnapshot] at hsnapshot'
  cases hsnapshot'
  have hnew := hexact.restart hbooks hlog hread hepoch hof hrebuilt
  have hholders := hrebuilt.holderInv herror
  have hpools : world.engine.PoolsReady [] engine.pools := by
    refine ⟨fun pool state hs => ?_, fun pool state hs => ?_, hnew.budget, ?_⟩
    · rcases hadoptable.origin pool state hs with ⟨config, hconfig⟩ | hcampaign
      · obtain ⟨before, hbefore, hsame⟩ := hbooks.opened pool config hconfig
        obtain ⟨after, hafter, hsame'⟩ := (hbooks.restart hlog hread hrebuilt).opened pool config hconfig
        rw [hs] at hbefore
        cases hbefore
        exact .inr ⟨after, hafter, hsame'.trans hsame.symm⟩
      · have hmutex := (hadoptable.holders.shape pool state hs).campaign hcampaign
        cases hafter : engine.pools.get? pool with
        | none => exact .inl ⟨rfl, hcampaign, hmutex⟩
        | some after =>
          exact .inr ⟨after, rfl, ((hholders.shape pool after hafter).campaign hcampaign).trans
            hmutex.symm⟩
    · rw [hrebuilt.pools, Option.map_eq_some_iff] at hs
      obtain ⟨config, -, rfl⟩ := hs
      exact Nat.zero_le _
    · intro pool state window hs hwindow debit hdebit
      obtain ⟨hconfig, hdebits⟩ := hrebuilt.windowed hs (by rw [hwindow]; rfl)
      rw [hdebits, hof.debits] at hdebit
      exact (hof.ends.dated hconfig hwindow ((liveDebits_sublist ..).subset hdebit)).2
  have hready : Ready world.engine [] engine := by
    refine ⟨hrebuilt.fresh.2.2.2, ?_, ?_, hpools⟩
    · rw [hrebuilt.events]
      exact hreliable
    · rw [hrebuilt.keys, hkeys]
  exact hready.allGranted hadoptable hbooks.tickets hkeyed (by simp) (by simpa using hnodup) hheld

theorem keyed_of_values {engine : LeaseEngine}
    (h : ∀ held ∈ engine.held.values, held.grant.admissionKey.isSome) : engine.Keyed :=
  fun id held hs => h held ((Dict.mem_values_iff _).mpr ⟨id, hs⟩)

/-- The unit of the busy engine is granted its lease again. -/
theorem adopted_work_is_granted_busy :
    busyWorld.engine.held.keys = ["lease-1-1"] ∧ AdoptsAll apiPools 0 (seconds 20) busyWorld.engine := by
  have hkeyed : busyWorld.engine.Keyed := keyed_of_values (by decide +kernel)
  exact ⟨by decide +kernel, adopted_work_is_granted busyWorld_reached (by decide) (by simp) hkeyed
    (by decide +kernel) 0⟩

def AdmitOutcome.isGranted : AdmitOutcome → Bool
  | .granted _ => true
  | .queued .. => false

/-- A lease whose request waits after the restart. -/
theorem not_adoptsAll {pools : Dict String PoolConfig} {now : Time} {old : LeaseEngine}
    (id : String) (request : LeaseRequest) (hepoch : old.epoch < 2)
    (hid : ((old.held.get? id).map fun held => (held.grant.jobId, held.grant.unit, held.grant.pools,
      held.grant.admissionKey, held.grant.consumptionEstimate)) =
        some (request.jobId, request.unit, request.pools, request.admissionKey,
          request.consumptionEstimate))
    (hqueued : (old.events.map fun log => (log.fates,
      (fromDurableWithAgingThreshold 2 1000 1000000 pools log 0 now).map fun engine =>
        ((admitAt request now).exec engine).1.map AdmitOutcome.isGranted)) =
          some ([], .ok (.ok false))) :
    ¬ AdoptsAll pools 0 now old := by
  intro hadopts
  obtain ⟨held, hheld, hsame⟩ := Option.map_eq_some_iff.mp hid
  obtain ⟨log, hlog, hboth⟩ := Option.map_eq_some_iff.mp hqueued
  obtain ⟨hfates, hwaits⟩ := Prod.mk.inj hboth
  simp only [Prod.mk.injEq] at hsame
  obtain ⟨hjob, hunit, hpools, hkey, hestimate⟩ := hsame
  have hreliable : Reliable (some log) := by
    rintro _ ⟨⟩ fate hfate
    rw [hfates] at hfate
    cases hfate
  have hreadmits : Readmits held.grant request :=
    ⟨⟨hjob.symm, hunit.symm⟩, .of_eq hpools.symm, hkey.symm, hestimate.symm⟩
  obtain ⟨engine, hengine, hall⟩ := hadopts log 2 1000 1000000 hlog hreliable hepoch (by decide)
    (by decide)
  have hgranted := hall [(id, request, now)] (by simp) (by simpa using ⟨held, hheld, hreadmits⟩)
  obtain ⟨grant, hgrant⟩ := hgranted.1
  rw [hengine] at hwaits
  simp only [Except.map] at hwaits
  rw [hgrant] at hwaits
  cases hwaits

/-- An engine that does not come up at all. -/
theorem not_adoptsAll_of_error {pools : Dict String PoolConfig} {now : Time} {old : LeaseEngine}
    (hepoch : old.epoch < 2)
    (hfails : (old.events.map fun log => (log.fates,
      (fromDurableWithAgingThreshold 2 1000 1000000 pools log 0 now).toBool)) = some ([], false)) :
    ¬ AdoptsAll pools 0 now old := by
  intro hadopts
  obtain ⟨log, hlog, hboth⟩ := Option.map_eq_some_iff.mp hfails
  obtain ⟨hfates, herror⟩ := Prod.mk.inj hboth
  have hreliable : Reliable (some log) := by
    rintro _ ⟨⟩ fate hfate
    rw [hfates] at hfate
    cases hfate
  obtain ⟨engine, hengine, -⟩ := hadopts log 2 1000 1000000 hlog hreliable hepoch (by decide)
    (by decide)
  rw [hengine] at herror
  cases herror

/-- An attempt is reported failed but stays in the log, and another request takes the budget. -/
def overbookedWorld : World :=
  twoAdmissions (apiEngine [.indeterminate]) (apiRequest "a" 60) (apiRequest "b" 60)

theorem overbookedWorld_reached :
    World.Reached apiPools [.indeterminate] (seconds 10) overbookedWorld :=
  twoAdmissions_reached (apiEngine_new _) _ _

/-- The append of the first attempt stops inside its line, and the next grant is written after it. -/
def tornWorld : World :=
  twoAdmissions (apiEngine [.torn]) (apiRequest "a" 60) (apiRequest "b" 60)

/-- The second grant is made when the first debit has left the window; then the clock goes back. -/
def rewoundOps : List Op :=
  [.admitAt (apiRequest "a" 60) (seconds 100), .admitAt (apiRequest "b" 60) (seconds 200),
    .budgetUsedAt "api" (seconds 150)]

/-- The unit of `b` runs in the first two engines, and the rebuilt budget is overdrawn: `b` is queued.
From the log of the torn world and that of the distant one no engine comes up. -/
theorem adopted_work_is_queued :
    (¬ ∀ pools fates time world, World.Reached pools fates time world → world.engine.Keyed →
      ∀ now, time ≤ now → AdoptsAll pools 0 now world.engine) ∧
    (¬ ∀ pools engine epoch yieldGrace agingThreshold, newWithAgingThreshold epoch yieldGrace
      agingThreshold pools (some {}) = .ok engine → ∀ ops, (engine.run ops).Keyed →
      ∀ now, (∀ op, ops.getLast? = some op → op.time ≤ now) →
        AdoptsAll pools 0 now (engine.run ops)) ∧
    (¬ ∀ pools fates time world, World.Reached pools fates time world →
      (∀ fate ∈ fates, fate ≠ .indeterminate) → world.engine.Keyed → world.engine.Dates pools →
      ∀ now, time ≤ now → AdoptsAll pools 0 now world.engine) ∧
    ¬ ∀ pools fates time world, World.Reached pools fates time world →
      (∀ fate ∈ fates, fate.honest) → world.engine.Keyed →
      ∀ now, time ≤ now → AdoptsAll pools 0 now world.engine := by
  refine ⟨fun hclaim => ?_, fun hclaim => ?_, fun hclaim => ?_, fun hclaim => ?_⟩
  · have hkeyed : overbookedWorld.engine.Keyed := keyed_of_values (by decide +kernel)
    have hadopts := hclaim _ _ _ _ overbookedWorld_reached hkeyed (seconds 20) (by decide)
    exact not_adoptsAll "lease-1-2" (apiRequest "b" 60) (by decide +kernel)
      (by decide +kernel) (by decide +kernel) hadopts
  · have hkeyed : ((apiEngine []).run rewoundOps).Keyed := keyed_of_values (by decide +kernel)
    have hadopts := hclaim _ _ _ _ _ (apiEngine_new []) rewoundOps hkeyed (seconds 150)
      (by rintro op ⟨⟩; decide)
    exact not_adoptsAll "lease-1-2" (apiRequest "b" 60) (by decide +kernel)
      (by decide +kernel) (by decide +kernel) hadopts
  · have hreached : World.Reached apiPools [.torn] (seconds 10) tornWorld :=
      twoAdmissions_reached (apiEngine_new _) _ _
    have hkeyed : tornWorld.engine.Keyed := keyed_of_values (by decide +kernel)
    have hadopts := hclaim _ _ _ _ hreached (by decide) hkeyed (by decide +kernel) (seconds 20)
      (by decide)
    exact not_adoptsAll_of_error (by decide +kernel) (by decide +kernel) hadopts
  · have hreached : World.Reached _ [] (seconds 10) distantWorld :=
      twoAdmissions_reached (budgetEngine_new _ _ _) _ _
    have hkeyed : distantWorld.engine.Keyed := keyed_of_values (by decide +kernel)
    have hadopts := hclaim _ _ _ _ hreached (by simp) hkeyed (seconds 20) (by decide)
    exact not_adoptsAll_of_error (by decide +kernel) (by decide +kernel) hadopts

end Tally.Lease
