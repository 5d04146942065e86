import Tally.Lease.Basic

/-!
# The lease engine

`LeaseEngine` of `lease.rs`, method by method. A method that takes the engine by mutable reference
and returns a `Result` is an `EngineM` computation: an early exit keeps what was written before it.

Hash maps are iterated in an unspecified order by the source. The order of `Dict` entries stands for
that order. It shows only in the order of the leases that `planTick` lists: the candidates of a pool
are compared by key, and the events of a yield request are not written.
-/

namespace Tally.Lease

open Lib (debugText)

/-! ## Window budgets -/

/-- The longest duration of chrono, in whole seconds: `i64::MAX` milliseconds. -/
def maxDurationSec : Nat := i64Max / 1000

/-- `chrono::Duration::seconds(i64::try_from(window_sec))`, which panics past the longest duration. -/
def windowDuration (window : WindowedConsumptionPredicate) : Except LeaseError Int :=
  if window.windowSec ≤ i64Max then
    if window.windowSec ≤ maxDurationSec then .ok (window.windowSec * nanosPerSec)
    else .error .panicked
  else .error (.invalidRequest "windowSec is too large")

/-- `admitted_at + window`, from the stamp of a debit. -/
def windowEnd (window : Int) (debit : BudgetDebit) : Except LeaseError Time :=
  match parseTimestamp debit.admittedAt with
  | .error error => .error error
  | .ok admittedAt => addDuration admittedAt window

/-- The loop of `prune_debits`: what has left the window is dropped from the front of the queue. -/
def dropExpired (window : Int) (now : Time) :
    List BudgetDebit → Except LeaseError Unit × List BudgetDebit
  | [] => (.ok (), [])
  | debit :: rest =>
    match windowEnd window debit with
    | .error error => (.error error, debit :: rest)
    | .ok stop => if stop ≤ now then dropExpired window now rest else (.ok (), debit :: rest)

def pruneDebits (state : RuntimePool) (now : Time) : Except LeaseError Unit × RuntimePool :=
  match state.config.predicate with
  | .coResidency => (.ok (), state)
  | .windowedConsumption window =>
    match windowDuration window with
    | .error error => (.error error, state)
    | .ok window =>
      ((dropExpired window now state.debits).1,
        { state with debits := (dropExpired window now state.debits).2 })

/-- The sum of `u64` amounts by `checked_add`. -/
def checkedSum (amounts : List Nat) : Option Nat :=
  amounts.foldlM (fun sum amount => if sum + amount ≤ u64Max then some (sum + amount) else none) 0

def poolAllows (pool : String) (state : RuntimePool) (request : LeaseRequest) (now : Time) :
    Except LeaseError Bool × RuntimePool :=
  match state.config.predicate with
  | .coResidency => (.ok (state.holders.card < state.config.capacity), state)
  | .windowedConsumption window =>
    match pruneDebits state now with
    | (.error error, state) => (.error error, state)
    | (.ok (), state) =>
      match checkedSum (state.debits.map (·.amount)) with
      | none =>
        (.error (.invalidRequest ("window usage overflow in pool " ++ debugText pool)), state)
      | some used =>
        let total := used + request.consumptionEstimate.getD 0
        (.ok (decide (total ≤ u64Max) && decide (total ≤ window.consumptionCap)), state)

/-- Run `f` on the state of a pool in place, as through `pools.get_mut(pool)`. -/
def withPool {α : Type} (pool : String) (f : RuntimePool → Except LeaseError α × RuntimePool) :
    EngineM α := do
  let engine ← get
  match engine.pools.get? pool with
  | none => throw (.unknownPool pool)
  | some state =>
    set { engine with pools := engine.pools.insert pool (f state).2 }
    match (f state).1 with
    | .error error => throw error
    | .ok value => pure value

/-! ## Construction -/

def RuntimePool.new (config : PoolConfig) : RuntimePool := { config }

/-- The shape of a campaign pool is fixed by its name. -/
def normalizeConfig (name : String) (config : PoolConfig) : PoolConfig :=
  if campaignPoolPrefix.toList.isPrefixOf name.toList then campaignMutexConfig else config

/-- What the constructor has against a configured pool. -/
def poolError (name : String) (config : PoolConfig) : Option LeaseError :=
  if campaignPoolPrefix.toList.isPrefixOf name.toList && !isCampaignPoolName name then
    some (.invalidRequest
      ("configured pool " ++ debugText name ++ " uses the reserved campaign/ namespace"))
  else
    let config := normalizeConfig name config
    if config.capacity = 0 then
      some (.invalidRequest ("pool " ++ debugText name ++ " has zero capacity"))
    else if config.resourceKind = .mutex ∧
        (config.capacity ≠ 1 ∨ config.predicate.isCoResidency = false) then
      some (.invalidRequest
        ("mutex pool " ++ debugText name ++ " must use co-residency with capacity 1"))
    else none

def LeaseEngine.newWithAgingThreshold (epoch yieldGrace agingThreshold : Nat)
    (pools : Dict String PoolConfig) (events : Option LeaseEventLog) :
    Except LeaseError LeaseEngine :=
  if epoch = 0 then .error (.invalidRequest "lease epoch must be positive")
  else if yieldGrace = 0 then .error (.invalidRequest "yieldGraceSec must be positive")
  else if agingThreshold = 0 then .error (.invalidRequest "agingThresholdSec must be positive")
  else match pools.entries.findSome? fun entry => poolError entry.1 entry.2 with
    | some error => .error error
    | none => .ok {
        epoch, yieldGrace, agingThreshold, events
        pools := pools.mapVals fun name config => RuntimePool.new (normalizeConfig name config) }

def defaultAgingThreshold : Nat := 3600 * nanosPerSec

def LeaseEngine.new (epoch yieldGrace : Nat) (pools : Dict String PoolConfig)
    (events : Option LeaseEventLog) : Except LeaseError LeaseEngine :=
  LeaseEngine.newWithAgingThreshold epoch yieldGrace defaultAgingThreshold pools events

namespace LeaseEngine

/-- Ghost: note an entry in the trace. -/
def record (entry : TraceEntry) (engine : LeaseEngine) : LeaseEngine :=
  { engine with trace := entry :: engine.trace }

/-! ## Events -/

def logLines (engine : LeaseEngine) : List LeaseEvent :=
  match engine.events with
  | none => []
  | some log => log.lines

/-- Only grants are written to the log. -/
def appendEvent (now : Time) (event : LeaseEventKind) : EngineM Unit := do
  match event with
  | .granted .. =>
    let engine ← get
    match engine.events with
    | none => pure ()
    | some log =>
      let (result, log) := log.append
        { schemaVersion := 1, observedAt := timestamp now, epoch := engine.epoch, event }
      set { engine with events := some log }
      match result with
      | .error error => throw error
      | .ok () => pure ()
  | _ => pure ()

def checkEpoch (presented : Nat) : EngineM Unit := do
  let engine ← get
  if presented = engine.epoch then pure ()
  else throw (.staleEpoch presented engine.epoch)

/-! ## Admission requests -/

def validatePools (engine : LeaseEngine) (request : LeaseRequest) :
    List String → Except LeaseError Unit
  | [] => .ok ()
  | pool :: rest =>
    match engine.pools.get? pool with
    | none =>
      if isCampaignPoolName pool then engine.validatePools request rest
      else .error (.unknownPool pool)
    | some state =>
      if state.config.predicate.isWindowed && request.consumptionEstimate.isNone then
        .error (.invalidRequest
          ("windowed-consumption pool " ++ debugText pool ++ " requires consumptionEstimate"))
      else engine.validatePools request rest

def validateRequest (engine : LeaseEngine) (request : LeaseRequest) : Except LeaseError Unit :=
  if isBlank request.jobId || isBlank request.unit then
    .error (.invalidRequest "jobId and unit must not be empty")
  else engine.validatePools request request.pools

def canonicalizeRequest (engine : LeaseEngine) (request : LeaseRequest) :
    Except LeaseError LeaseRequest :=
  match Poolset.canonicalize request.pools with
  | .error error => .error (.invalidRequest error.message)
  | .ok pools =>
    let request := { request with pools }
    match engine.validateRequest request with
    | .error error => .error error
    | .ok () => .ok request

def validateAdmission (engine : LeaseEngine) (request : LeaseRequest) : Except LeaseError Unit :=
  match engine.canonicalizeRequest request with
  | .error error => .error error
  | .ok _ => .ok ()

/-- Open a campaign pool that is not there yet. -/
def openCampaignPool (pools : Dict String RuntimePool) (pool : String) : Dict String RuntimePool :=
  if isCampaignPoolName pool then
    match pools.get? pool with
    | some _ => pools
    | none => pools.insert pool (RuntimePool.new campaignMutexConfig)
  else pools

/-! ## Granting -/

def alreadyDebited (engine : LeaseEngine) (admissionKey : Option String) : Bool :=
  match admissionKey with
  | some key => key ∈ engine.debitedAdmissions
  | none => false

/-- The request that `can_grant` judges: an admission that was debited before costs nothing. -/
def effectiveRequest (engine : LeaseEngine) (request : LeaseRequest) : LeaseRequest :=
  if engine.alreadyDebited request.admissionKey then
    { request with consumptionEstimate := some 0 }
  else request

def poolsAllow (effective : LeaseRequest) (now : Time) : List String → EngineM Bool
  | [] => pure true
  | pool :: rest => do
    if ← withPool pool (poolAllows pool · effective now) then poolsAllow effective now rest
    else pure false

def canGrant (request : LeaseRequest) (now : Time) : EngineM Bool := do
  let engine ← get
  poolsAllow (engine.effectiveRequest request) now request.pools

def collectDebits (engine : LeaseEngine) (grant : LeaseGrant) (alreadyDebited : Bool)
    (now : Time) : List String → Except LeaseError (List BudgetDebit)
  | [] => .ok []
  | pool :: rest =>
    match engine.pools.get? pool with
    | none => .error (.unknownPool pool)
    | some state =>
      match engine.collectDebits grant alreadyDebited now rest with
      | .error error => .error error
      | .ok debits =>
        if !alreadyDebited && state.config.predicate.isWindowed then
          .ok ({ pool, amount := grant.consumptionEstimate.getD 0, admittedAt := timestamp now } ::
            debits)
        else .ok debits

def updatePool (pools : Dict String RuntimePool) (pool : String)
    (f : RuntimePool → RuntimePool) : Dict String RuntimePool :=
  match pools.get? pool with
  | none => pools
  | some state => pools.insert pool (f state)

def addHolder (leaseId : String) (pools : Dict String RuntimePool) (pool : String) :
    Dict String RuntimePool :=
  updatePool pools pool fun state => { state with holders := insert leaseId state.holders }

def removeHolder (leaseId : String) (pools : Dict String RuntimePool) (pool : String) :
    Dict String RuntimePool :=
  updatePool pools pool fun state => { state with holders := state.holders.erase leaseId }

def pushDebit (pools : Dict String RuntimePool) (debit : BudgetDebit) : Dict String RuntimePool :=
  updatePool pools debit.pool fun state => { state with debits := state.debits ++ [debit] }

def grantFor (engine : LeaseEngine) (leaseId : String) (request : LeaseRequest) (now : Time) :
    LeaseGrant where
  leaseId := leaseId
  jobId := request.jobId
  unit := request.unit
  pools := request.pools
  priority := request.priority
  epoch := engine.epoch
  grantedAt := timestamp now
  admissionKey := request.admissionKey
  consumptionEstimate := request.consumptionEstimate

/-- The admission key that a grant charges: none if the grant carries no debits. -/
def chargedKey (grant : LeaseGrant) (debits : List BudgetDebit) : Option String :=
  if debits.isEmpty then none else grant.admissionKey

/-- The state after a grant whose event has been written. -/
def commitGrant (earlier : List LeaseEvent) (request : LeaseRequest) (now : Time)
    (grant : LeaseGrant) (debits : List BudgetDebit) (engine : LeaseEngine) : LeaseEngine :=
  record (.granted now grant.leaseId request debits earlier) { engine with
    debitedAdmissions := match chargedKey grant debits with
      | some key => insert key engine.debitedAdmissions
      | none => engine.debitedAdmissions
    pools := debits.foldl pushDebit (grant.pools.foldl (addHolder grant.leaseId) engine.pools)
    held := engine.held.insert grant.leaseId { grant, yieldDemands := ∅ } }

def grant (leaseId : String) (request : LeaseRequest) (now : Time) : EngineM LeaseGrant := do
  let engine ← get
  let grant := engine.grantFor leaseId request now
  match engine.collectDebits grant (engine.alreadyDebited grant.admissionKey) now grant.pools with
  | .error error => throw error
  | .ok budgetDebits =>
    appendEvent now (.granted grant budgetDebits)
    modify (commitGrant engine.logLines request now grant budgetDebits)
    pure grant

def removeHeld (grant : LeaseGrant) (engine : LeaseEngine) : LeaseEngine :=
  { engine with
    held := engine.held.erase grant.leaseId
    pools := grant.pools.foldl (removeHolder grant.leaseId) engine.pools }

/-! ## Order of the pending queue -/

def effectiveRankAt (pending : PendingRequest) (now : Time) (agingThreshold : Nat) : Nat :=
  if now - pending.admittedAt > agingThreshold then
    match pending.request.priority with
    | .low => Priority.medium.rank
    | .medium => Priority.high.rank
    | .high => Priority.interrupt.rank
    | .interrupt => Priority.interrupt.rank
  else pending.request.priority.rank

/-- The sequence numbers of one scheduling group at one rank, in increasing order. -/
def groupSequences (pending : List PendingRequest) (rank : Nat) (group : LeaseSchedulingGroup) :
    List Nat :=
  ((pending.filter fun p =>
    decide (p.effectiveRank = rank ∧ p.request.schedulingGroup = group)).map
      (·.sequence)).insertionSort (· ≤ ·)

/-- The place of a request in its group and the oldest member of the group. -/
def braid (pending : List PendingRequest) (p : PendingRequest) : Nat × Nat :=
  let sequences := groupSequences pending p.effectiveRank p.request.schedulingGroup
  (sequences.idxOf p.sequence, sequences.headD 0)

/-- Higher ranks first, then the braid, then the sequence number. -/
def sortKey (pending : List PendingRequest) (p : PendingRequest) : ℕᵒᵈ ×ₗ ℕ ×ₗ ℕ ×ₗ ℕ :=
  toLex (OrderDual.toDual p.effectiveRank,
    toLex ((braid pending p).1, toLex ((braid pending p).2, p.sequence)))

def sortByKey (pending : List PendingRequest) : List PendingRequest :=
  pending.insertionSort fun left right => sortKey pending left ≤ sortKey pending right

def rerank (now : Time) (agingThreshold : Nat) (pending : List PendingRequest) :
    List PendingRequest :=
  pending.map fun p => { p with effectiveRank := effectiveRankAt p now agingThreshold }

def sortPending (now : Time) (engine : LeaseEngine) : LeaseEngine :=
  { engine with pending := sortByKey (rerank now engine.agingThreshold engine.pending) }

def refreshAgedOrder (now : Time) (engine : LeaseEngine) : LeaseEngine :=
  if engine.pending.any fun p => p.effectiveRank ≠ effectiveRankAt p now engine.agingThreshold then
    engine.sortPending now
  else engine

/-! ## Yield demands -/

/-- What the interrupts want so far: the intents by lease and ticket, and the leases that each pool
has already given up to an earlier interrupt. -/
structure YieldPlan where
  desired : Dict String (Dict String YieldIntent)
  reservedByPool : Dict String (Finset String)

structure Assignment where
  pool : String
  leaseId : String
  hardPreempt : Bool

def windowsAllow (pending : PendingRequest) (now : Time) : List String → EngineM Bool
  | [] => pure true
  | pool :: rest => do
    match (← get).pools.get? pool with
    | none => windowsAllow pending now rest
    | some state =>
      if state.config.predicate.isWindowed then
        if ← withPool pool (poolAllows pool · pending.request now) then
          windowsAllow pending now rest
        else pure false
      else windowsAllow pending now rest

/-- The holders of a pool that may be asked to yield. -/
def eligible (engine : LeaseEngine) (state : RuntimePool) (reserved : Finset String) :
    List HeldLease :=
  ((engine.held.entries.filter fun entry => decide (entry.1 ∈ state.holders)).map Prod.snd).filter
    fun held => decide (held.grant.priority.rank < Priority.interrupt.rank ∧
      held.grant.leaseId ∉ reserved)

/-- A holder that this ticket already asks to yield in this pool comes first. -/
def yieldCandidate (engine : LeaseEngine) (state : RuntimePool) (reserved : Finset String)
    (pool ticketId : String) : Option HeldLease :=
  (((engine.eligible state reserved).filter fun held =>
    (held.yieldDemands.get? ticketId).any fun demand => decide (pool ∈ demand.pools)).argmin
      (·.grant.leaseId)).or
    ((engine.eligible state reserved).argmin fun held =>
      toLex (held.grant.priority.rank, held.grant.leaseId))

/-- One victim for each full pool of the request, or `none` if some full pool has none. -/
def assignments (engine : LeaseEngine) (plan : YieldPlan) (ticketId : String) :
    List String → Option (List Assignment)
  | [] => some []
  | pool :: rest =>
    match engine.pools.get? pool with
    | none => engine.assignments plan ticketId rest
    | some state =>
      if !state.config.predicate.isCoResidency || state.holders.card < state.config.capacity then
        engine.assignments plan ticketId rest
      else
        match engine.yieldCandidate state ((plan.reservedByPool.get? pool).getD ∅) pool ticketId with
        | none => none
        | some held =>
          (engine.assignments plan ticketId rest).map
            ({ pool, leaseId := held.grant.leaseId, hardPreempt := state.config.hardPreempt } :: ·)

/-- A victim is hard-reclaim eligible only if every pool it is asked to yield in allows it. -/
def YieldPlan.demand (ticketId : String) (plan : YieldPlan) (a : Assignment) : YieldPlan where
  reservedByPool := plan.reservedByPool.insert a.pool
    (insert a.leaseId ((plan.reservedByPool.get? a.pool).getD ∅))
  desired :=
    let tickets := (plan.desired.get? a.leaseId).getD ∅
    plan.desired.insert a.leaseId <| tickets.insert ticketId <|
      match tickets.get? ticketId with
      | some intent =>
        { hardReclaim := intent.hardReclaim && a.hardPreempt, pools := insert a.pool intent.pools }
      | none => { hardReclaim := a.hardPreempt, pools := {a.pool} }

def planInterrupts (now : Time) : List PendingRequest → YieldPlan → EngineM YieldPlan
  | [], plan => pure plan
  | pending :: rest, plan => do
    if ← windowsAllow pending now pending.request.pools then
      match (← get).assignments plan pending.ticketId pending.request.pools with
      | none => planInterrupts now rest plan
      | some assigned =>
        planInterrupts now rest (assigned.foldl (YieldPlan.demand pending.ticketId) plan)
    else planInterrupts now rest plan

def yieldDeadline (engine : LeaseEngine) (now : Time) : Except LeaseError Time :=
  if engine.yieldGrace ≤ i64Max * nanosPerMilli then addDuration now engine.yieldGrace
  else .error (.invalidRequest "yield grace is too large")

/-- The pairs of lease and ticket whose yield request is new, or newly hard. -/
def newlyRequested (engine : LeaseEngine) (desired : Dict String (Dict String YieldIntent)) :
    List (String × String) :=
  desired.entries.flatMap fun (leaseId, tickets) =>
    (tickets.entries.filter fun (ticketId, intent) =>
      match (engine.held.get? leaseId).bind (·.yieldDemands.get? ticketId) with
      | none => true
      | some demand => intent.hardReclaim && !demand.hardReclaim).map fun (ticketId, _) =>
        (leaseId, ticketId)

def appendYieldRequests (now deadline : Time) : List (String × String) → EngineM Unit
  | [] => pure ()
  | (leaseId, ticketId) :: rest => do
    appendEvent now (.yieldRequested leaseId ticketId (timestamp deadline))
    appendYieldRequests now deadline rest

/-- A demand that turns hard starts its grace anew; every other kept demand keeps its deadline. -/
def updateDemand (deadline : Time) (intent : YieldIntent) : Option YieldDemand → YieldDemand
  | none => { deadline, hardReclaim := intent.hardReclaim, pools := intent.pools }
  | some demand => {
      deadline := if intent.hardReclaim && !demand.hardReclaim then deadline else demand.deadline
      hardReclaim := intent.hardReclaim
      pools := intent.pools }

/-- Demands that nobody wants any more are dropped; the rest are updated or created. -/
def updateHeld (desired : Dict String (Dict String YieldIntent)) (deadline : Time)
    (leaseId : String) (held : HeldLease) : HeldLease :=
  { held with
    yieldDemands := match desired.get? leaseId with
      | none => ∅
      | some wanted => wanted.mapVals fun ticketId intent =>
          updateDemand deadline intent (held.yieldDemands.get? ticketId) }

def applyDesired (now : Time) (desired : Dict String (Dict String YieldIntent)) (deadline : Time)
    (engine : LeaseEngine) : LeaseEngine :=
  let held := engine.held.mapVals (updateHeld desired deadline)
  record (.reconciled now held) { engine with held }

def interrupts (engine : LeaseEngine) : List PendingRequest :=
  engine.pending.filter fun p => decide (p.request.priority = .interrupt)

def reconcileYieldDemands (now : Time) : EngineM Unit := do
  modify (refreshAgedOrder now)
  let plan ← planInterrupts now (← get).interrupts { desired := ∅, reservedByPool := ∅ }
  let engine ← get
  match engine.yieldDeadline now with
  | .error error => throw error
  | .ok deadline =>
    appendYieldRequests now deadline (engine.newlyRequested plan.desired)
    modify (applyDesired now plan.desired deadline)

/-! ## Promotion -/

/-- The first pending request, from `index` on, that fits. -/
def selectPending (now : Time) : List PendingRequest → Nat → EngineM (Option Nat)
  | [], _ => pure none
  | p :: rest, index => do
    if ← canGrant p.request now then pure (some index)
    else selectPending now rest (index + 1)

/-- The loop of `promote`. Every round but the last removes a pending request, so as many rounds as
there are pending requests are enough (`promoteLoop_done`). -/
def promoteLoop (now : Time) : Nat → EngineM (List LeaseGrant)
  | 0 => pure []
  | rounds + 1 => do
    match ← selectPending now (← get).pending 0 with
    | none => pure []
    | some index =>
      match (← get).pending[index]? with
      | none => pure []
      | some p =>
        let grant ← grant p.ticketId p.request now
        modify fun engine => { engine with pending := engine.pending.eraseIdx index }
        let promoted ← promoteLoop now rounds
        pure (grant :: promoted)

def promote (now : Time) : EngineM (List LeaseGrant) := do
  modify (refreshAgedOrder now)
  promoteLoop now (← get).pending.length

/-! ## Operations -/

def hasTicket (ticketId : String) (p : PendingRequest) : Bool := p.ticketId == ticketId

def admitAt (request : LeaseRequest) (now : Time) : EngineM AdmitOutcome := do
  match (← get).canonicalizeRequest request with
  | .error error => throw error
  | .ok request =>
    modify fun engine => { engine with pools := request.pools.foldl openCampaignPool engine.pools }
    let engine ← get
    let sequence := engine.nextSequence
    if sequence + 1 ≤ u64Max then
      set { engine with nextSequence := sequence + 1 }
      let ticketId := leaseTicket engine.epoch sequence
      if ← canGrant request now then
        return .granted (← grant ticketId request now)
      else
        modify fun engine => { engine with pending := engine.pending ++ [{
          ticketId, sequence, request
          admittedAt := now
          effectiveRank := request.priority.rank }] }
        modify (sortPending now)
        let engine ← get
        match (reconcileYieldDemands now).exec engine with
        | (.error error, engine) =>
          set { engine with pending := engine.pending.filter (!hasTicket ticketId ·) }
          throw error
        | (.ok (), engine) =>
          set engine
          pure (.queued ticketId (engine.pending.findIdx (hasTicket ticketId) + 1))
    else throw (.invalidRequest "request sequence overflow")

def status (leaseId : String) (epoch : Nat) : EngineM LeaseStatus := do
  checkEpoch epoch
  let engine ← get
  match engine.held.get? leaseId with
  | some held =>
    pure {
      leaseId, epoch
      held := true
      yieldRequested := !held.yieldDemands.entries.isEmpty
      yieldDeadline := (held.yieldDemands.values.map (·.deadline)).min?.map timestamp }
  | none =>
    if engine.pending.any (hasTicket leaseId) then
      pure { leaseId, epoch, held := false, yieldRequested := false, yieldDeadline := none }
    else throw (.notFound leaseId)

def budgetUsedAt (pool : String) (now : Time) : EngineM Nat := do
  match (← get).pools.get? pool with
  | none => if isCampaignPoolName pool then pure 0 else throw (.unknownPool pool)
  | some _ =>
    withPool pool fun state =>
      match pruneDebits state now with
      | (.error error, state) => (.error error, state)
      | (.ok (), state) => (.ok ((state.debits.map (·.amount)).sum % 2 ^ 64), state)

/-- When the oldest debit leaves the window. -/
def windowReset (window : WindowedConsumptionPredicate) (debit : BudgetDebit) :
    Except LeaseError (Option Time) := do
  let admittedAt ← parseTimestamp debit.admittedAt
  let window ← windowDuration window
  pure (some (timestamp (← addDuration admittedAt window)))

def windowResetAt (pool : String) (now : Time) : EngineM (Option Time) := do
  match (← get).pools.get? pool with
  | none => if isCampaignPoolName pool then pure none else throw (.unknownPool pool)
  | some _ =>
    withPool pool fun state =>
      match pruneDebits state now with
      | (.error error, state) => (.error error, state)
      | (.ok (), state) =>
        match state.config.predicate, state.debits with
        | .windowedConsumption window, debit :: _ => (windowReset window debit, state)
        | _, _ => (.ok none, state)

def releaseAt (leaseId : String) (epoch : Nat) (now : Time) : EngineM ReleaseOutcome := do
  checkEpoch epoch
  match (← get).held.get? leaseId with
  | none => throw (.notFound leaseId)
  | some held =>
    appendEvent now (.released leaseId)
    modify (removeHeld held.grant)
    modify (record (.finished .released leaseId))
    let promoted ← promote now
    reconcileYieldDemands now
    pure { released := held.grant, promoted }

def forgetDemands (ticketId : String) (engine : LeaseEngine) : LeaseEngine :=
  { engine with held := engine.held.mapVals fun _ held =>
      { held with yieldDemands := held.yieldDemands.erase ticketId } }

def cancelPendingAt (ticketId : String) (epoch : Nat) (_now : Time) : EngineM Unit := do
  checkEpoch epoch
  let engine ← get
  if engine.pending.any (hasTicket ticketId) then
    set (forgetDemands ticketId
      { engine with pending := engine.pending.eraseP (hasTicket ticketId) })
    modify (record (.finished .cancelled ticketId))
  else throw (.notFound ticketId)

/-- Some ticket's hard demand on this lease has outlived its grace. -/
def reclaimable (now : Time) (held : HeldLease) : Bool :=
  held.yieldDemands.values.any fun demand => demand.hardReclaim && decide (demand.deadline ≤ now)

def planTick (now : Time) : EngineM (List LeaseGrant) := do
  reconcileYieldDemands now
  let engine ← get
  pure ((engine.held.values.filter (reclaimable now)).map (·.grant))

def preemptEach (now : Time) : List String → EngineM (List LeaseGrant)
  | [] => pure []
  | leaseId :: rest => do
    match (← get).held.get? leaseId with
    | none => throw (.notFound leaseId)
    | some held =>
      if reclaimable now held then
        appendEvent now (.preempted leaseId)
        modify (removeHeld held.grant)
        modify (record (.finished .preempted leaseId))
        let preempted ← preemptEach now rest
        pure (held.grant :: preempted)
      else
        throw (.invalidRequest
          ("lease " ++ debugText leaseId ++ " is no longer eligible for hard preemption"))

def commitPreemptions (reclaimed : List String) (now : Time) : EngineM TickOutcome := do
  reconcileYieldDemands now
  let preempted ← preemptEach now reclaimed
  let promoted ← promote now
  reconcileYieldDemands now
  pure { preempted, promoted }

def tick (now : Time) : EngineM TickOutcome := do
  let planned ← planTick now
  commitPreemptions (planned.map (·.leaseId)) now

end LeaseEngine

/-! ## Runs -/

/-- The calls a lease engine can receive. -/
inductive Op
  | admitAt (request : LeaseRequest) (now : Time)
  | releaseAt (leaseId : String) (epoch : Nat) (now : Time)
  | cancelPendingAt (ticketId : String) (epoch : Nat) (now : Time)
  | planTick (now : Time)
  | commitPreemptions (reclaimed : List String) (now : Time)
  | tick (now : Time)
  | budgetUsedAt (pool : String) (now : Time)
  | windowResetAt (pool : String) (now : Time)
  | status (leaseId : String) (epoch : Nat) (now : Time)

namespace Op

def time : Op → Time
  | admitAt _ now | releaseAt _ _ now | cancelPendingAt _ _ now | planTick now
  | commitPreemptions _ now | tick now | budgetUsedAt _ now | windowResetAt _ now
  | status _ _ now => now

/-- What a call returns. -/
inductive Reply
  | admitted (outcome : AdmitOutcome)
  | released (outcome : ReleaseOutcome)
  | cancelled
  | planned (grants : List LeaseGrant)
  | ticked (outcome : TickOutcome)
  | budget (used : Nat)
  | reset (time : Option Time)
  | status (status : LeaseStatus)
  deriving DecidableEq, Repr

def call : Op → EngineM Reply
  | admitAt request now => .admitted <$> LeaseEngine.admitAt request now
  | releaseAt leaseId epoch now => .released <$> LeaseEngine.releaseAt leaseId epoch now
  | cancelPendingAt ticketId epoch now =>
    (fun _ => .cancelled) <$> LeaseEngine.cancelPendingAt ticketId epoch now
  | planTick now => .planned <$> LeaseEngine.planTick now
  | commitPreemptions reclaimed now => .ticked <$> LeaseEngine.commitPreemptions reclaimed now
  | tick now => .ticked <$> LeaseEngine.tick now
  | budgetUsedAt pool now => .budget <$> LeaseEngine.budgetUsedAt pool now
  | windowResetAt pool now => .reset <$> LeaseEngine.windowResetAt pool now
  | status leaseId epoch _ => .status <$> LeaseEngine.status leaseId epoch

/-- The reply to a call, and the engine after it. -/
def exec (op : Op) (engine : LeaseEngine) : Except LeaseError Reply × LeaseEngine :=
  op.call.exec engine

end Op

/-- The engine after a sequence of calls. -/
def LeaseEngine.run (engine : LeaseEngine) (ops : List Op) : LeaseEngine :=
  ops.foldl (fun engine op => (op.exec engine).2) engine

end Tally.Lease
