import Tally.Lease.Accounts
import Tally.Lease.Holders

/-!
# Engines and their restarts

An engine dies with its process and the log stays. A `World` is the engine of the current epoch; it
is reached from a fresh engine by calls and by restarts from the log, at times that do not decrease.
-/

namespace Tally.Lease

open LeaseEngine

/-! ## The engine that a restart builds -/

/-- The configuration of a restart: that of the start, and mutexes for campaign pools. -/
def Reopens (pools reopened : Dict String PoolConfig) : Prop :=
  ∀ pool, reopened.get? pool = pools.get? pool ∨
    pools.get? pool = none ∧ isCampaignPoolName pool ∧
      reopened.get? pool = some campaignMutexConfig

theorem Reopens.refl (pools : Dict String PoolConfig) : Reopens pools pools := fun _ => .inl rfl

theorem Reopens.trans {pools mid reopened : Dict String PoolConfig} (h : Reopens pools mid)
    (h' : Reopens mid reopened) : Reopens pools reopened := by
  intro pool
  rcases h pool with heq | ⟨hnone, hcampaign, hsome⟩
  · rcases h' pool with heq' | ⟨hnone', hcampaign', hsome'⟩
    · exact .inl (heq'.trans heq)
    · exact .inr ⟨heq ▸ hnone', hcampaign', hsome'⟩
  · rcases h' pool with heq' | ⟨hnone', -, -⟩
    · exact .inr ⟨hnone, hcampaign, heq'.trans hsome⟩
    · rw [hsome] at hnone'
      cases hnone'

theorem reopenCampaignPool_reopens (pools : Dict String PoolConfig) (pool : String) :
    Reopens pools (reopenCampaignPool pools pool) := by
  unfold reopenCampaignPool
  split
  · next h =>
    simp only [Bool.and_eq_true, Option.isNone_iff_eq_none] at h
    intro q
    rw [Dict.get?_insert]
    split
    · next hq =>
      subst hq
      exact .inr ⟨h.2, h.1, rfl⟩
    · exact .inl rfl
  · exact .refl pools

theorem foldl_reopenCampaignPool_reopens (granted : List String) (pools : Dict String PoolConfig) :
    Reopens pools (granted.foldl reopenCampaignPool pools) := by
  induction granted generalizing pools with
  | nil => exact .refl pools
  | cons pool rest ih => exact (reopenCampaignPool_reopens pools pool).trans (ih _)

theorem reopenCampaignPools_reopens (pools : Dict String PoolConfig) (event : LeaseEvent) :
    Reopens pools (reopenCampaignPools pools event) := by
  unfold reopenCampaignPools
  split
  · exact foldl_reopenCampaignPool_reopens _ pools
  · exact .refl pools

theorem foldl_reopenCampaignPools_reopens (lines : List LeaseEvent)
    (pools : Dict String PoolConfig) : Reopens pools (lines.foldl reopenCampaignPools pools) := by
  induction lines generalizing pools with
  | nil => exact .refl pools
  | cons line rest ih => exact (reopenCampaignPools_reopens pools line).trans (ih _)

/-- The scan does not see the reopened pools: they have no window. -/
theorem Reopens.rebuildDebit_eq {pools reopened : Dict String PoolConfig}
    (h : Reopens pools reopened) (now : Time) : rebuildDebit reopened now = rebuildDebit pools now := by
  funext state debit
  unfold rebuildDebit
  rcases h debit.pool with heq | ⟨hnone, -, hsome⟩
  · rw [heq]
  · rw [hnone, hsome]
    rfl

theorem Reopens.rebuildWindowUsage_eq {pools reopened : Dict String PoolConfig}
    (h : Reopens pools reopened) (log : LeaseEventLog) (witnessRecords : Nat) (now : Time) :
    rebuildWindowUsage reopened log witnessRecords now =
      rebuildWindowUsage pools log witnessRecords now := by
  have hevent : rebuildEvent reopened now = rebuildEvent pools now := by
    funext state event
    unfold rebuildEvent
    rw [h.rebuildDebit_eq now]
  unfold rebuildWindowUsage
  rw [hevent]

theorem get?_foldl_restoreDebits (entries : List (String × List BudgetDebit))
    (hnodup : (entries.map Prod.fst).Nodup) (pools : Dict String RuntimePool) (q : String) :
    (entries.foldl restoreDebits pools).get? q = (pools.get? q).map fun state =>
      { state with debits := (entries.lookup q).getD state.debits } := by
  induction entries generalizing pools with
  | nil => simp
  | cons entry rest ih =>
    obtain ⟨pool, debits⟩ := entry
    obtain ⟨hnot, hrest⟩ := List.nodup_cons.mp hnodup
    rw [List.foldl_cons, ih hrest, restoreDebits, get?_updatePool, Option.map_map, List.lookup_cons]
    congr 1
    funext state
    by_cases hq : q = pool
    · subst hq
      have hnone : rest.lookup q = none := by
        rw [List.lookup_eq_none_iff]
        intro entry hentry
        have hne : entry.1 ≠ q := fun heq => hnot (List.mem_map.mpr ⟨entry, hentry, heq⟩)
        simpa using Ne.symm hne
      simp [hnone]
    · have hb : (q == pool) = false := by simpa using hq
      simp [hq, hb]

section Durable

variable {epoch yieldGrace agingThreshold witnessRecords : Nat} {pools : Dict String PoolConfig}
  {log : LeaseEventLog} {now : Time} {engine : LeaseEngine}

/-- The engine that `fromDurable` returns: a new one with the rebuilt accounts. -/
structure LeaseEngine.Rebuilt (pools : Dict String PoolConfig) (log : LeaseEventLog)
    (snapshot : WindowUsageSnapshot) (engine : LeaseEngine) : Prop where
  fresh : engine.held = ∅ ∧ engine.pending = [] ∧ engine.trace = [] ∧ engine.nextSequence = 1
  events : engine.events = some log
  keys : engine.debitedAdmissions = snapshot.debitedAdmissions
  pools : ∀ pool, engine.pools.get? pool =
    ((log.lines.foldl reopenCampaignPools pools).get? pool).map fun config =>
      { config := normalizeConfig pool config, debits := (snapshot.debits.get? pool).getD [] }

theorem fromDurable_rebuilt (hread : Readable log)
    (h : fromDurableWithAgingThreshold epoch yieldGrace agingThreshold pools log witnessRecords now =
      .ok engine) :
    engine.epoch = epoch ∧
      (∀ name config, (log.lines.foldl reopenCampaignPools pools).get? name = some config →
        poolError name config = none) ∧
      ∃ snapshot, rebuildWindowUsage pools log witnessRecords now = .ok snapshot ∧
        engine.Rebuilt pools log snapshot := by
  have hreopens := foldl_reopenCampaignPools_reopens log.lines pools
  unfold fromDurableWithAgingThreshold at h
  cases hlines : log.read with
  | error error =>
    rw [hlines] at h
    cases h
  | ok lines =>
  rw [hread.read (log.whole_of_read hlines)] at h
  simp only [hreopens.rebuildWindowUsage_eq] at h
  cases hrebuild : rebuildWindowUsage pools log witnessRecords now with
  | error error =>
    rw [hrebuild] at h
    cases h
  | ok snapshot =>
    simp only [hrebuild] at h
    cases hnew : newWithAgingThreshold epoch yieldGrace agingThreshold
        (log.lines.foldl reopenCampaignPools pools) (some log) with
    | error error =>
      rw [hnew] at h
      cases h
    | ok new =>
      rw [hnew] at h
      cases h
      obtain ⟨herror, rfl⟩ := new_eq hnew
      refine ⟨rfl, herror, snapshot, rfl, ⟨rfl, rfl, rfl, rfl⟩, rfl, rfl, fun pool => ?_⟩
      rw [get?_foldl_restoreDebits _ snapshot.debits.nodup, Dict.get?_mapVals, Option.map_map]
      rfl

theorem LeaseEngine.Rebuilt.ticketInv {snapshot : WindowUsageSnapshot}
    (h : engine.Rebuilt pools log snapshot) : engine.TicketInv := by
  obtain ⟨hheld, hpending, htrace, hnext⟩ := h.fresh
  have htickets : engine.tickets = [] := by
    simp [tickets, pendingIds, finishedIds, hheld, hpending, htrace, Dict.keys]
  exact ⟨by omega, by simp [htickets], by simp [htickets], by simp [hheld], by simp [hpending]⟩

theorem LeaseEngine.Rebuilt.holderInv {snapshot : WindowUsageSnapshot}
    (h : engine.Rebuilt pools log snapshot)
    (herror : ∀ name config, (log.lines.foldl reopenCampaignPools pools).get? name = some config →
      poolError name config = none) : engine.HolderInv := by
  obtain ⟨hheld, -⟩ := h.fresh
  have hget : ∀ {pool state}, engine.pools.get? pool = some state →
      state.holders = ∅ ∧ ShapeOk pool state.config := by
    intro pool state hs
    rw [h.pools, Option.map_eq_some_iff] at hs
    obtain ⟨config, hconfig, rfl⟩ := hs
    exact ⟨rfl, poolError_none (herror pool config hconfig)⟩
  constructor
  · intro pool state hs id
    simp [(hget hs).1, hheld]
  · intro id held hs
    rw [hheld] at hs
    cases hs
  · intro pool state hs _
    simp [(hget hs).1]
  · intro pool state hs
    exact (hget hs).2

end Durable

/-! ## Worlds -/

/-- The engine of the current epoch, and the traces of those before it. -/
structure World where
  engine : LeaseEngine
  /-- Ghost: newest entry first. -/
  past : List TraceEntry := []

namespace World

/-- Ghost: everything that the engines have done. -/
def history (world : World) : List TraceEntry := world.engine.trace ++ world.past

def call (world : World) (op : Op) : World := { world with engine := (op.exec world.engine).2 }

def restarted (world : World) (engine : LeaseEngine) : World := { engine, past := world.history }

/-- The worlds that are reached at a time, with the fates that its log began with. -/
inductive Reached (pools : Dict String PoolConfig) (fates : List AppendFate) : Time → World → Prop
  | start {epoch yieldGrace agingThreshold : Nat} {engine : LeaseEngine}
    (new : newWithAgingThreshold epoch yieldGrace agingThreshold pools (some { fates }) =
      .ok engine) (now : Time) : Reached pools fates now { engine }
  | call {time : Time} {world : World} (h : Reached pools fates time world) (op : Op)
    (later : time ≤ op.time) : Reached pools fates op.time (world.call op)
  | restart {time now : Time} {world : World} {log : LeaseEventLog} {engine : LeaseEngine}
    {epoch yieldGrace agingThreshold witnessRecords : Nat} (h : Reached pools fates time world)
    (later : time ≤ now) (left : world.engine.events = some log) (next : world.engine.epoch < epoch)
    (rebuilt : fromDurableWithAgingThreshold epoch yieldGrace agingThreshold pools log
      witnessRecords now = .ok engine) : Reached pools fates now (world.restarted engine)

/-- What the clock, every move and every restart preserve holds in every world. -/
theorem Reached.invariant {pools : Dict String PoolConfig} {fates : List AppendFate}
    {P : Time → World → Prop}
    (hstart : ∀ {epoch yieldGrace agingThreshold now engine}, newWithAgingThreshold epoch yieldGrace
      agingThreshold pools (some { fates }) = .ok engine → P now { engine })
    (hwait : ∀ {time now world}, time ≤ now → P time world → P now world)
    (hmove : ∀ {base now own engine} (world : World), Move base now own world.engine engine →
      P now world → P now { engine, past := world.past })
    (hrestart : ∀ {now world log engine epoch yieldGrace agingThreshold witnessRecords},
      P now world → world.engine.events = some log → world.engine.epoch < epoch →
      fromDurableWithAgingThreshold epoch yieldGrace agingThreshold pools log witnessRecords now =
        .ok engine → P now (world.restarted engine))
    {time : Time} {world : World} (h : Reached pools fates time world) : P time world := by
  induction h with
  | start new now => exact hstart new
  | @call time world _ op later ih =>
    have hmoves := op.exec_moves world.engine
    refine Moves.invariant (P := fun engine => P op.time { engine, past := world.past }) ?_ hmoves
      (hwait later ih)
    intro a b hstep ha
    exact hmove { engine := a, past := world.past } hstep ha
  | restart _ later left next rebuilt ih => exact hrestart (hwait later ih) left next rebuilt

end World

end Tally.Lease
