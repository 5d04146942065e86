import Tally.Lease.Prune

/-!
# What a call can do to the engine

Every call of the lease engine is a sequence of elementary `Move`s: debits that left the window are
dropped, a campaign pool is opened, a request is granted, queued, withdrawn or cancelled, a lease is
removed, the queue is re-sorted, the yield demands are replaced. `Op.exec_moves` decomposes each
call once, over all of its exits; every invariant of the engine is then a case analysis over `Move`.
-/

namespace Tally.Lease

open Relation

namespace LeaseEngine

/-! ## A grant and its event -/

/-- What an append does to an optional log. -/
def appendLine (events : Option LeaseEventLog) (event : LeaseEvent) :
    Except LeaseError Unit × Option LeaseEventLog :=
  match events with
  | none => (.ok (), none)
  | some log => ((log.append event).1, some (log.append event).2)

/-- Every append succeeds. -/
def Reliable (events : Option LeaseEventLog) : Prop :=
  ∀ log, events = some log → ∀ fate ∈ log.fates, fate = .written

theorem Reliable.append {events : Option LeaseEventLog} (h : Reliable events)
    (event : LeaseEvent) :
    (appendLine events event).1 = .ok () ∧
      Reliable (appendLine events event).2 := by
  cases events with
  | none => exact ⟨rfl, h⟩
  | some log =>
    obtain ⟨lines, unterminated, garbled, fates⟩ := log
    cases fates with
    | nil =>
      refine ⟨rfl, fun log hlog fate hf => ?_⟩
      cases hlog
      cases hf
    | cons fate rest =>
      have hfate := h _ rfl fate List.mem_cons_self
      subst hfate
      refine ⟨rfl, fun log hlog fate hf => ?_⟩
      cases hlog
      exact h _ rfl fate (List.mem_cons_of_mem _ hf)

def isWindowedPool (engine : LeaseEngine) (pool : String) : Bool :=
  (engine.pools.get? pool).any (·.config.predicate.isWindowed)

/-- The window debits of a grant, one for each windowed pool of the request. -/
def debitsFor (engine : LeaseEngine) (request : LeaseRequest) (now : Time) : List BudgetDebit :=
  if engine.alreadyDebited request.admissionKey then []
  else (request.pools.filter engine.isWindowedPool).map fun pool =>
    { pool, amount := request.consumptionEstimate.getD 0, admittedAt := timestamp now }

/-- The line that `appendEvent` writes. -/
def eventAt (engine : LeaseEngine) (now : Time) (event : LeaseEventKind) : LeaseEvent :=
  { schemaVersion := 1, observedAt := timestamp now, epoch := engine.epoch, event }

def grantEvent (engine : LeaseEngine) (ticketId : String) (request : LeaseRequest) (now : Time) :
    LeaseEvent :=
  engine.eventAt now
    (.granted (engine.grantFor ticketId request now) (engine.debitsFor request now))

/-- The engine once the event of a grant has been offered to the log. -/
def logGrant (engine : LeaseEngine) (ticketId : String) (request : LeaseRequest) (now : Time) :
    LeaseEngine :=
  { engine with events := (appendLine engine.events (engine.grantEvent ticketId request now)).2 }

/-- The log reports the event of a grant as written. -/
def Logged (engine : LeaseEngine) (ticketId : String) (request : LeaseRequest) (now : Time) :
    Prop :=
  (appendLine engine.events (engine.grantEvent ticketId request now)).1 = .ok ()

/-- The engine after a grant. -/
def granted (engine : LeaseEngine) (ticketId : String) (request : LeaseRequest) (now : Time) :
    LeaseEngine :=
  commitGrant engine.logLines request now (engine.grantFor ticketId request now)
    (engine.debitsFor request now) (engine.logGrant ticketId request now)

theorem exec_appendEvent_granted (now : Time) (grant : LeaseGrant) (debits : List BudgetDebit)
    (engine : LeaseEngine) :
    (appendEvent now (.granted grant debits)).exec engine =
      ((appendLine engine.events (engine.eventAt now (.granted grant debits))).1,
        { engine with
          events := (appendLine engine.events (engine.eventAt now (.granted grant debits))).2 }) := by
  obtain ⟨epoch, yieldGrace, aging, pools, held, pending, debited, next, events, trace⟩ := engine
  simp only [appendEvent]
  rw [Eff.exec_bind]
  simp only [Eff.exec_get]
  cases events with
  | none => rfl
  | some log =>
    simp only [appendLine, eventAt]
    rw [Eff.exec_bind]
    simp only [Eff.exec_set]
    cases (log.append _).1 <;> rfl

theorem collectDebits_eq {engine : LeaseEngine} {grant : LeaseGrant} {debited : Bool} {now : Time}
    {pools : List String} (h : ∀ pool ∈ pools, ∃ state, engine.pools.get? pool = some state) :
    engine.collectDebits grant debited now pools = .ok (if debited then []
      else (pools.filter engine.isWindowedPool).map fun pool =>
        { pool, amount := grant.consumptionEstimate.getD 0, admittedAt := timestamp now }) := by
  induction pools with
  | nil => cases debited <;> rfl
  | cons pool rest ih =>
    obtain ⟨state, hs⟩ := h pool List.mem_cons_self
    simp only [collectDebits, hs, ih fun q hq => h q (List.mem_cons_of_mem _ hq)]
    have hw : engine.isWindowedPool pool = state.config.predicate.isWindowed := by
      simp [isWindowedPool, hs]
    cases debited <;> cases hp : state.config.predicate.isWindowed <;>
      simp [hw, hp]

/-- What `grant` does when all pools of the request are open. -/
theorem exec_grant {engine : LeaseEngine} {ticketId : String} {request : LeaseRequest} {now : Time}
    (h : ∀ pool ∈ request.pools, ∃ state, engine.pools.get? pool = some state) :
    (grant ticketId request now).exec engine =
      match (appendLine engine.events (engine.grantEvent ticketId request now)).1 with
      | .ok () => (.ok (engine.grantFor ticketId request now), engine.granted ticketId request now)
      | .error error => (.error error, engine.logGrant ticketId request now) := by
  have hdebits : engine.collectDebits (engine.grantFor ticketId request now)
      (engine.alreadyDebited (engine.grantFor ticketId request now).admissionKey) now
      (engine.grantFor ticketId request now).pools = .ok (engine.debitsFor request now) :=
    collectDebits_eq h
  rw [grant, Eff.exec_bind]
  simp only [Eff.exec_get, hdebits]
  rw [Eff.exec_bind, exec_appendEvent_granted, granted, logGrant, grantEvent]
  cases (appendLine engine.events _).1 <;> rfl

/-! ## The yield plan -/

/-- A pool does not refuse the request for its window budget. -/
def windowFits (engine : LeaseEngine) (now : Time) (request : LeaseRequest) (pool : String) :
    Bool :=
  (engine.pools.get? pool).all fun state => !state.config.predicate.isWindowed ||
    decide ((poolAllows pool state request now).1 = .ok true)

/-- The windowed pools of an interrupt would take it now. -/
def windowsFit (engine : LeaseEngine) (now : Time) (p : PendingRequest) : Bool :=
  p.request.pools.all (engine.windowFits now p.request)

/-- The yield plan for a list of interrupts. -/
def planFor (engine : LeaseEngine) : List PendingRequest → YieldPlan → YieldPlan
  | [], plan => plan
  | p :: rest, plan =>
    match engine.assignments plan p.ticketId p.request.pools with
    | none => engine.planFor rest plan
    | some assigned => engine.planFor rest (assigned.foldl (YieldPlan.demand p.ticketId) plan)

def emptyPlan : YieldPlan := { desired := ∅, reservedByPool := ∅ }

/-- The interrupts that a reconciliation plans for. -/
def activeInterrupts (engine : LeaseEngine) (now : Time) : List PendingRequest :=
  engine.interrupts.filter (engine.windowsFit now)

/-- The engine after its yield demands have been replaced. -/
def reconciled (engine : LeaseEngine) (now deadline : Time) : LeaseEngine :=
  engine.applyDesired now (engine.planFor (engine.activeInterrupts now) emptyPlan).desired deadline

/-! ## Moves -/

/-- What the admission of a request has checked. -/
structure Admissible (engine : LeaseEngine) (request : LeaseRequest) : Prop where
  named : isBlank request.jobId = false ∧ isBlank request.unit = false
  canonical : Poolset.Canonical request.pools
  pools : ∀ pool ∈ request.pools, ∃ state, engine.pools.get? pool = some state
  estimate : ∀ pool ∈ request.pools, engine.isWindowedPool pool →
    request.consumptionEstimate.isSome

/-- The engine with one more sequence number used up. -/
def bump (engine : LeaseEngine) : LeaseEngine :=
  { engine with nextSequence := engine.nextSequence + 1 }

/-- The ticket of the next admission. -/
def nextTicket (engine : LeaseEngine) : String := leaseTicket engine.epoch engine.nextSequence

def queued (engine : LeaseEngine) (request : LeaseRequest) (now : Time) : LeaseEngine :=
  sortPending now { engine with
    nextSequence := engine.nextSequence + 1
    pending := engine.pending ++ [{
      ticketId := engine.nextTicket
      sequence := engine.nextSequence
      request
      admittedAt := now
      effectiveRank := request.priority.rank }] }

def withdrawn (engine : LeaseEngine) (ticketId : String) : LeaseEngine :=
  { engine with pending := engine.pending.filter (!hasTicket ticketId ·) }

def promoted (engine : LeaseEngine) (index : Nat) (p : PendingRequest) (now : Time) :
    LeaseEngine :=
  { engine.granted p.ticketId p.request now with pending := engine.pending.eraseIdx index }

def finished (engine : LeaseEngine) (how : Finish) (leaseId : String) (held : HeldLease) :
    LeaseEngine :=
  record (.finished how leaseId) (removeHeld held.grant engine)

def cancelled (engine : LeaseEngine) (ticketId : String) : LeaseEngine :=
  record (.finished .cancelled ticketId) (forgetDemands ticketId
    { engine with pending := engine.pending.eraseP (hasTicket ticketId) })

/-- The request at `index` is the first pending one that fits. -/
structure FirstFit (engine : LeaseEngine) (now : Time) (index : Nat) (p : PendingRequest) :
    Prop where
  get : engine.pending[index]? = some p
  fits : engine.Fits p.request now
  pruned : engine.PrunedAt p.request.pools now
  first : ∀ i < index, ∀ q, engine.pending[i]? = some q → ¬ engine.Fits q.request now

/-! ### The pools after a move -/

theorem get?_updatePool (pools : Dict String RuntimePool) (pool q : String)
    (f : RuntimePool → RuntimePool) :
    (updatePool pools pool f).get? q =
      (pools.get? q).map fun state => if q = pool then f state else state := by
  unfold updatePool
  by_cases hq : q = pool
  · subst hq
    cases hs : pools.get? q with
    | none => simp [hs]
    | some state => simp
  · cases hs : pools.get? pool with
    | none => simp [hq]
    | some state => simp [hq, Dict.get?_insert_ne]

theorem get?_foldl_addHolder (leaseId : String) (granted : List String)
    (pools : Dict String RuntimePool) (q : String) :
    (granted.foldl (addHolder leaseId) pools).get? q = (pools.get? q).map fun state =>
      { state with
        holders := if q ∈ granted then insert leaseId state.holders else state.holders } := by
  induction granted generalizing pools with
  | nil => simp
  | cons pool rest ih =>
    rw [List.foldl_cons, ih, addHolder, get?_updatePool, Option.map_map]
    congr 1
    funext state
    by_cases hq : q = pool <;> by_cases hr : q ∈ rest <;> simp [hq, hr]

theorem get?_foldl_removeHolder (leaseId : String) (granted : List String)
    (pools : Dict String RuntimePool) (q : String) :
    (granted.foldl (removeHolder leaseId) pools).get? q = (pools.get? q).map fun state =>
      { state with
        holders := if q ∈ granted then state.holders.erase leaseId else state.holders } := by
  induction granted generalizing pools with
  | nil => simp
  | cons pool rest ih =>
    rw [List.foldl_cons, ih, removeHolder, get?_updatePool, Option.map_map]
    congr 1
    funext state
    by_cases hq : q = pool <;> by_cases hr : q ∈ rest <;> simp [hq, hr]

theorem get?_foldl_pushDebit (debits : List BudgetDebit) (pools : Dict String RuntimePool)
    (q : String) :
    (debits.foldl pushDebit pools).get? q = (pools.get? q).map fun state =>
      { state with debits := state.debits ++ debits.filter fun debit => debit.pool = q } := by
  induction debits generalizing pools with
  | nil => simp
  | cons debit rest ih =>
    rw [List.foldl_cons, ih, pushDebit, get?_updatePool, Option.map_map]
    congr 1
    funext state
    by_cases hq : q = debit.pool
    · simp [hq]
    · simp [hq, Ne.symm hq]

/-- A pool after a grant. -/
theorem get?_pools_granted (engine : LeaseEngine) (ticketId : String) (request : LeaseRequest)
    (now : Time) (q : String) :
    (engine.granted ticketId request now).pools.get? q = (engine.pools.get? q).map fun state =>
      { state with
        holders := if q ∈ request.pools then insert ticketId state.holders else state.holders
        debits := state.debits ++
          (engine.debitsFor request now).filter fun debit => debit.pool = q } := by
  show (List.foldl pushDebit _ _).get? q = _
  rw [get?_foldl_pushDebit, get?_foldl_addHolder, Option.map_map]
  rfl

/-- A pool after a lease is gone. -/
theorem get?_pools_finished (engine : LeaseEngine) (how : Finish) (leaseId : String)
    (held : HeldLease) (q : String) :
    (engine.finished how leaseId held).pools.get? q = (engine.pools.get? q).map fun state =>
      { state with
        holders := if q ∈ held.grant.pools then state.holders.erase held.grant.leaseId
          else state.holders } :=
  get?_foldl_removeHolder held.grant.leaseId held.grant.pools engine.pools q

end LeaseEngine

open LeaseEngine

/-- The elementary steps of a call at `now`. A call admits no request but its own (`own`) and
withdraws no other: `base` is the sequence number that was next when the call began. -/
inductive Move (base : Nat) (now : Time) (own : LeaseRequest → Prop) :
    LeaseEngine → LeaseEngine → Prop
  | prune {engine engine' : LeaseEngine} (h : PruneOf now engine engine') :
    Move base now own engine engine'
  | openPool {engine : LeaseEngine} {pool : String} (campaign : isCampaignPoolName pool)
    (absent : engine.pools.get? pool = none) : Move base now own engine
      { engine with pools := engine.pools.insert pool (RuntimePool.new campaignMutexConfig) }
  | skip {engine : LeaseEngine} (small : engine.nextSequence + 1 ≤ u64Max) :
    Move base now own engine engine.bump
  | grant {engine : LeaseEngine} {request : LeaseRequest} (mine : own request)
    (small : engine.nextSequence + 1 ≤ u64Max) (ok : engine.Admissible request)
    (fits : engine.Fits request now) (pruned : engine.PrunedAt request.pools now)
    (logged : engine.Logged engine.nextTicket request now) :
    Move base now own engine (engine.granted engine.nextTicket request now).bump
  | grantFailed {engine : LeaseEngine} {request : LeaseRequest} (mine : own request)
    (small : engine.nextSequence + 1 ≤ u64Max) (ok : engine.Admissible request)
    (fits : engine.Fits request now) (pruned : engine.PrunedAt request.pools now)
    (failed : ¬ engine.Logged engine.nextTicket request now) :
    Move base now own engine (engine.logGrant engine.nextTicket request now).bump
  | queue {engine : LeaseEngine} {request : LeaseRequest} (mine : own request)
    (small : engine.nextSequence + 1 ≤ u64Max) (ok : engine.Admissible request)
    (full : ¬ engine.Fits request now) :
    Move base now own engine (engine.queued request now)
  | withdraw {engine : LeaseEngine} {sequence : Nat} (fresh : base ≤ sequence) :
    Move base now own engine (engine.withdrawn (leaseTicket engine.epoch sequence))
  | resort {engine : LeaseEngine} : Move base now own engine (engine.refreshAgedOrder now)
  | promote {engine : LeaseEngine} {index : Nat} {p : PendingRequest}
    (select : engine.FirstFit now index p) (logged : engine.Logged p.ticketId p.request now) :
    Move base now own engine (engine.promoted index p now)
  | promoteFailed {engine : LeaseEngine} {index : Nat} {p : PendingRequest}
    (select : engine.FirstFit now index p) (failed : ¬ engine.Logged p.ticketId p.request now) :
    Move base now own engine (engine.logGrant p.ticketId p.request now)
  | finish {engine : LeaseEngine} {how : Finish} {leaseId : String} {held : HeldLease}
    (get : engine.held.get? leaseId = some held) :
    Move base now own engine (engine.finished how leaseId held)
  | reconcile {engine : LeaseEngine} {deadline : Time}
    (ok : engine.yieldDeadline now = .ok deadline) :
    Move base now own engine (engine.reconciled now deadline)
  | cancel {engine : LeaseEngine} {ticketId : String}
    (pending : engine.pending.any (hasTicket ticketId)) :
    Move base now own engine (engine.cancelled ticketId)

/-- Any number of moves of one call. -/
abbrev Moves (base : Nat) (now : Time) (own : LeaseRequest → Prop) : LeaseEngine → LeaseEngine → Prop :=
  ReflTransGen (Move base now own)

end Tally.Lease
