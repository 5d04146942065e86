import Tally.Lease.YieldAgain

/-!
# Preemptions that were planned

`commit_preemptions` reconciles before it looks at the leases that `plan_tick` listed. That changes
nothing, so each of them is held and due, and it stays so while the others are removed.
-/

namespace Tally.Lease

open Eff
open Lib (debugText)

namespace LeaseEngine

/-! ## Refusals -/

/-- What `commit_preemptions` answers for a lease that is not due. -/
def ineligible (leaseId : String) : LeaseError :=
  .invalidRequest ("lease " ++ debugText leaseId ++ " is no longer eligible for hard preemption")

/-- The error is not about a lease that is gone or not due. -/
def Unrelated (error : LeaseError) : Prop :=
  ∀ leaseId, error ≠ .notFound leaseId ∧ error ≠ ineligible leaseId

/-- A message that does not begin like that of a lease that is not due. -/
theorem unrelated_invalidRequest {message : String} (h : message.toList.head? ≠ some 'l') :
    Unrelated (.invalidRequest message) := by
  refine fun leaseId => ⟨nofun, fun heq => h ?_⟩
  rw [LeaseError.invalidRequest.inj heq, String.toList_append, String.toList_append]
  rfl

theorem unrelated_unknownPool (pool : String) : Unrelated (.unknownPool pool) :=
  fun _ => ⟨nofun, nofun⟩

theorem unrelated_io : Unrelated .io := fun _ => ⟨nofun, nofun⟩

theorem unrelated_panicked : Unrelated .panicked :=
  fun _ => ⟨(fun h => by cases h), (fun h => by cases h)⟩

theorem unrelated_pruneDebits {error : LeaseError} (h : PruneError error) : Unrelated error := by
  rcases h with rfl | rfl | rfl
  · exact unrelated_panicked
  · exact unrelated_invalidRequest (by decide)
  · exact unrelated_invalidRequest (by decide)

theorem unrelated_poolAllows {pool : String} {state : RuntimePool} {request : LeaseRequest} {now : Time}
    {error : LeaseError} (h : (poolAllows pool state request now).1 = .error error) :
    Unrelated error := by
  unfold poolAllows at h
  cases hpredicate : state.config.predicate with
  | coResidency =>
    rw [hpredicate] at h
    cases h
  | windowedConsumption window =>
    rw [hpredicate] at h
    dsimp only at h
    rcases hp : pruneDebits state now with ⟨found | _, pruned⟩
    · rw [hp] at h
      cases h
      exact unrelated_pruneDebits (pruneDebits_error (congrArg Prod.fst hp))
    · rw [hp] at h
      dsimp only at h
      split at h
      · cases h
        refine unrelated_invalidRequest fun hhead => ?_
        rw [String.toList_append] at hhead
        exact absurd (Option.some.inj hhead) (by decide)
      · cases h

theorem failsWith_withPool (pool : String) (request : LeaseRequest) (now : Time) :
    FailsWith Unrelated (withPool pool (poolAllows pool · request now)) := by
  intro s error s' h
  rw [exec_withPool] at h
  cases hs : s.pools.get? pool with
  | none =>
    rw [hs] at h
    cases h
    exact unrelated_unknownPool pool
  | some state =>
    rw [hs] at h
    exact unrelated_poolAllows (congrArg Prod.fst h)

theorem failsWith_windowsAllow (p : PendingRequest) (now : Time) (pools : List String) :
    FailsWith Unrelated (windowsAllow p now pools) := by
  induction pools with
  | nil => exact failsWith_pure
  | cons pool rest ih =>
    rw [windowsAllow]
    refine failsWith_get.bind fun engine => ?_
    split
    · exact ih
    · split
      · refine (failsWith_withPool pool p.request now).bind fun allowed => ?_
        split
        · exact ih
        · exact failsWith_pure
      · exact ih

theorem failsWith_planInterrupts (now : Time) (pending : List PendingRequest) (plan : YieldPlan) :
    FailsWith Unrelated (planInterrupts now pending plan) := by
  induction pending generalizing plan with
  | nil => exact failsWith_pure
  | cons p rest ih =>
    rw [planInterrupts]
    refine (failsWith_windowsAllow p now _).bind fun allowed => ?_
    split
    · refine failsWith_get.bind fun engine => ?_
      split
      · exact ih plan
      · exact ih _
    · exact ih plan

theorem failsWith_reconcile (now : Time) : FailsWith Unrelated (reconcileYieldDemands now) := by
  rw [reconcileYieldDemands]
  refine failsWith_modify.bind fun _ => failsWith_get.bind fun _ =>
    (failsWith_planInterrupts now _ _).bind fun plan => failsWith_get.bind fun engine => ?_
  cases hdeadline : engine.yieldDeadline now with
  | error error =>
    refine failsWith_throw ?_
    unfold yieldDeadline addDuration at hdeadline
    split at hdeadline
    · split at hdeadline <;> cases hdeadline
      exact unrelated_panicked
    · cases hdeadline
      exact unrelated_invalidRequest (by decide)
  | ok deadline =>
    refine FailsWith.bind (fun s error s' h => ?_) fun _ => failsWith_modify
    rw [exec_appendYieldRequests] at h
    cases h

theorem failsWith_poolsAllow (effective : LeaseRequest) (now : Time) (pools : List String) :
    FailsWith Unrelated (poolsAllow effective now pools) := by
  induction pools with
  | nil => exact failsWith_pure
  | cons pool rest ih =>
    rw [poolsAllow]
    refine (failsWith_withPool pool effective now).bind fun allowed => ?_
    split
    · exact ih
    · exact failsWith_pure

theorem failsWith_selectPending (now : Time) (pending : List PendingRequest) (index : Nat) :
    FailsWith Unrelated (selectPending now pending index) := by
  induction pending generalizing index with
  | nil => exact failsWith_pure
  | cons p rest ih =>
    rw [selectPending]
    refine (failsWith_get.bind fun _ => failsWith_poolsAllow _ now _).bind fun allowed => ?_
    split
    · exact failsWith_pure
    · exact ih (index + 1)

theorem unrelated_collectDebits {engine : LeaseEngine} {grant : LeaseGrant} {debited : Bool} {now : Time}
    {pools : List String} {error : LeaseError}
    (h : engine.collectDebits grant debited now pools = .error error) : Unrelated error := by
  induction pools with
  | nil => cases h
  | cons pool rest ih =>
    rw [collectDebits] at h
    split at h
    · cases h
      exact unrelated_unknownPool pool
    · split at h
      · next herror =>
        cases h
        exact ih herror
      · split at h <;> cases h

theorem unrelated_append {log : LeaseEventLog} {event : LeaseEvent} {error : LeaseError}
    (h : (log.append event).1 = .error error) : Unrelated error := by
  obtain ⟨lines, unterminated, garbled, fates⟩ := log
  cases fates with
  | nil => cases h
  | cons fate rest =>
    cases fate <;> cases h <;> exact unrelated_io

theorem failsWith_appendEvent (now : Time) (event : LeaseEventKind) :
    FailsWith Unrelated (appendEvent now event) := by
  rw [appendEvent.eq_def]
  split
  · refine failsWith_get.bind fun engine => ?_
    split
    · exact failsWith_pure
    · next log hlog =>
      refine failsWith_set.bind fun _ => ?_
      split
      · next error herror =>
        refine failsWith_throw ?_
        exact unrelated_append herror
      · exact failsWith_pure
  · exact failsWith_pure

theorem failsWith_grant (ticketId : String) (request : LeaseRequest) (now : Time) :
    FailsWith Unrelated (grant ticketId request now) := by
  rw [grant]
  refine failsWith_get.bind fun engine => ?_
  dsimp only
  split
  · next error herror => exact failsWith_throw (unrelated_collectDebits herror)
  · exact (failsWith_appendEvent now _).bind fun _ => failsWith_modify.bind fun _ => failsWith_pure

theorem failsWith_promote (now : Time) : FailsWith Unrelated (promote now) := by
  have hloop : ∀ rounds, FailsWith Unrelated (promoteLoop now rounds) := by
    intro rounds
    induction rounds with
    | zero => exact failsWith_pure
    | succ rounds ih =>
      rw [promoteLoop]
      refine failsWith_get.bind fun _ => (failsWith_selectPending now _ _).bind fun selected => ?_
      split
      · exact failsWith_pure
      · refine failsWith_get.bind fun _ => ?_
        split
        · exact failsWith_pure
        · exact (failsWith_grant _ _ now).bind fun _ =>
            failsWith_modify.bind fun _ => ih.bind fun _ => failsWith_pure
  rw [promote]
  exact failsWith_modify.bind fun _ => failsWith_get.bind fun _ => hloop _

/-! ## Preempting what is due -/

variable {a b : LeaseEngine} {now : Time}

/-- The lease of a grant is held and due. -/
def Due (engine : LeaseEngine) (now : Time) (grant : LeaseGrant) : Prop :=
  ∃ held, engine.held.get? grant.leaseId = some held ∧ held.grant = grant ∧ reclaimable now held = true

theorem preemptEach_cons_ok {leaseId : String} {rest : List String} {held : HeldLease}
    {more : List LeaseGrant} (hheld : a.held.get? leaseId = some held)
    (hdue : reclaimable now held = true)
    (hmore : (preemptEach now rest).exec (a.finished .preempted leaseId held) = (.ok more, b)) :
    (preemptEach now (leaseId :: rest)).exec a = (.ok (held.grant :: more), b) := by
  rw [preemptEach, exec_bind, exec_get]
  dsimp only
  rw [hheld]
  dsimp only
  rw [if_pos hdue, exec_bind, show (appendEvent now (.preempted leaseId)).exec a = (.ok (), a) from rfl]
  dsimp only
  rw [exec_bind, exec_modify]
  dsimp only
  rw [exec_bind, exec_modify]
  exact exec_bind_ok hmore

/-- Leases that are held and due are preempted, each of them once. -/
theorem preemptEach_ok {grants : List LeaseGrant} (hnodup : (grants.map (·.leaseId)).Nodup)
    (hdue : ∀ grant ∈ grants, a.Due now grant) :
    ∃ b, (preemptEach now (grants.map (·.leaseId))).exec a = (.ok grants, b) := by
  induction grants generalizing a with
  | nil => exact ⟨a, rfl⟩
  | cons grant rest ih =>
    rw [List.map_cons, List.nodup_cons] at hnodup
    rw [List.forall_mem_cons] at hdue
    obtain ⟨⟨held, hheld, rfl, hreclaim⟩, hrest⟩ := hdue
    have hkept : ∀ grant ∈ rest, (a.finished .preempted held.grant.leaseId held).Due now grant := by
      intro grant hgrant
      obtain ⟨other, hother, heq, hotherDue⟩ := hrest grant hgrant
      have hne : grant.leaseId ≠ held.grant.leaseId :=
        fun heq => hnodup.1 (List.mem_map.mpr ⟨grant, hgrant, heq⟩)
      refine ⟨other, ?_, heq, hotherDue⟩
      change (a.held.erase _).get? grant.leaseId = _
      rw [Dict.get?_erase_ne _ hne]
      exact hother
    obtain ⟨b, hb⟩ := ih hnodup.2 hkept
    exact ⟨b, preemptEach_cons_ok hheld hreclaim hb⟩

theorem Filed.map_values (hfiled : a.Filed) : a.held.values.map (·.grant.leaseId) = a.held.keys := by
  rw [Dict.values, Dict.keys, List.map_map]
  exact List.map_congr_left fun entry hentry =>
    hfiled entry.1 entry.2 (a.held.mem_entries_iff.mp hentry)

/-- What `plan_tick` lists is held and due, each lease once. -/
theorem planned_due (hfiled : a.Filed) :
    (((a.held.values.filter (reclaimable now)).map (·.grant)).map (·.leaseId)).Nodup ∧
      ∀ grant ∈ (a.held.values.filter (reclaimable now)).map (·.grant), a.Due now grant := by
  constructor
  · rw [List.map_map]
    have hnodup : (a.held.values.map (·.grant.leaseId)).Nodup := hfiled.map_values ▸ a.held.nodup_keys
    exact (List.filter_sublist.map _).nodup hnodup
  · intro grant hgrant
    obtain ⟨held, hmem, rfl⟩ := List.mem_map.mp hgrant
    obtain ⟨hvalue, hreclaim⟩ := List.mem_filter.mp hmem
    obtain ⟨id, hheld⟩ := a.held.mem_values_iff.mp hvalue
    have hid := hfiled id held hheld
    exact ⟨held, by rw [hid]; exact hheld, rfl, hreclaim⟩

/-- `commit_preemptions` preempts what `plan_tick` has just listed. If it fails, it is for another reason. -/
theorem commit_planned (h : a.Orderly) {grants : List LeaseGrant} {planned : LeaseEngine}
    (hplan : (planTick now).exec a = (.ok grants, planned)) {result : Except LeaseError TickOutcome}
    {final : LeaseEngine}
    (hcommit : (commitPreemptions (grants.map (·.leaseId)) now).exec planned = (result, final)) :
    (∀ outcome, result = .ok outcome → outcome.preempted = grants) ∧
      ∀ error, result = .error error → Unrelated error := by
  obtain ⟨last, hrec, hgrants⟩ := planTick_cases hplan
  cases last with
  | error error => cases hgrants
  | ok =>
    cases hgrants
    have hplanned : planned.Orderly := h.moves (reconcile_moves hrec : Moves 0 now (fun _ => False) a planned)
    obtain ⟨again, hagain, hsame⟩ := reconcile_again h hrec
    have hheld : again.held = planned.held := by rw [hsame.frame]
    obtain ⟨hnodup, hdue⟩ := @planned_due planned now hplanned.tickets.key
    have hdueAgain : ∀ grant ∈ (planned.held.values.filter (reclaimable now)).map (·.grant),
        again.Due now grant := by
      intro grant hgrant
      obtain ⟨held, hget, hrest⟩ := hdue grant hgrant
      exact ⟨held, by rw [hheld]; exact hget, hrest⟩
    obtain ⟨freed, hfreed⟩ := preemptEach_ok hnodup hdueAgain
    rcases commitPreemptions_cases hcommit with ⟨error, hfirst, rfl⟩ | ⟨mid, hfirst, hmore⟩
    · rw [hagain] at hfirst
      cases hfirst
    rw [hagain] at hfirst
    cases hfirst
    rcases hmore with ⟨error, hpre, rfl⟩ | ⟨preempted, b, hpre, hmore⟩
    · rw [hfreed] at hpre
      cases hpre
    rw [hfreed] at hpre
    cases hpre
    rcases hmore with ⟨error, hpromote, rfl⟩ | ⟨promoted, c, hpromote, last, hlast, rfl⟩
    · refine ⟨nofun, fun error' heq => ?_⟩
      cases heq
      exact failsWith_promote now _ _ _ hpromote
    · cases last with
      | ok =>
        refine ⟨fun outcome heq => ?_, nofun⟩
        cases heq
        rfl
      | error error =>
        refine ⟨nofun, fun error' heq => ?_⟩
        cases heq
        exact failsWith_reconcile now _ _ _ hlast

end LeaseEngine

open LeaseEngine

theorem LeaseEngine.Started.orderly {engine : LeaseEngine} (h : engine.Started) (ops : List Op) :
    (engine.run ops).Orderly := by
  obtain ⟨htickets, hholders, hpending⟩ := h.fresh
  exact ⟨run_ticketInv htickets ops, run_holderInv htickets hholders ops,
    run_invariant Move.queueOk (QueueOk.of_nil hpending) ops⟩

/-- In every state that calls reach, also within a call, the demands after a reconciliation are a
matching, a second reconciliation at the same instant changes nothing, and `commit_preemptions` preempts
what `plan_tick` lists at that instant, unless it fails for another reason. -/
theorem yield_demands_match {engine : LeaseEngine} (hstart : engine.Started) (ops : List Op) {base : Nat}
    {now : Time} {own : LeaseRequest → Prop} {mid : LeaseEngine}
    (hmid : Moves base now own (engine.run ops) mid) {time : Time} {after : LeaseEngine}
    (hrec : (reconcileYieldDemands time).exec mid = (.ok (), after)) :
    after.YieldMatching ∧
      (∃ again, (reconcileYieldDemands time).exec after = (.ok (), again) ∧ SameState after again) ∧
      ∀ grants planned result final, (planTick time).exec mid = (.ok grants, planned) →
        (commitPreemptions (grants.map (·.leaseId)) time).exec planned = (result, final) →
          (∀ outcome, result = .ok outcome → outcome.preempted = grants) ∧
            ∀ error, result = .error error → Unrelated error := by
  have horderly := (hstart.orderly ops).moves hmid
  refine ⟨?_, reconcile_again horderly hrec, fun grants planned result final hplan hcommit =>
    commit_planned horderly hplan hcommit⟩
  obtain ⟨last, deadline, hlast, -, -, rfl⟩ := reconcile_mid horderly hrec
  exact reconciled_matching hlast.tickets hlast.holders hlast.queue

/-- The slot of the batch job, once the interrupt has waited out its grace. -/
theorem yield_demands_match_slot :
    (∃ after, (reconcileYieldDemands 1010).exec (hardEngine.run hardOps) = (.ok (), after) ∧
      after.demandAt "lease-1-1" "lease-1-2" = some ⟨1010, true, {"gpu"}⟩ ∧ after.YieldMatching ∧
      ∃ again, (reconcileYieldDemands 1010).exec after = (.ok (), again) ∧ SameState after again) ∧
    ∃ planned final, (planTick 1010).exec (hardEngine.run hardOps) = (.ok [hardVictim], planned) ∧
      (commitPreemptions ["lease-1-1"] 1010).exec planned = (.ok hardOutcome, final) ∧
      hardOutcome.preempted = [hardVictim] := by
  have hstart : hardEngine.Started := .new (show newWithAgingThreshold 1 1000 1000000 hardPools none =
    .ok hardEngine from rfl)
  have hrec := Eff.exec_eq_of_fst (show ((reconcileYieldDemands 1010).exec (hardEngine.run hardOps)).1 =
    .ok () by decide +kernel)
  have hplan := Eff.exec_eq_of_fst (show ((planTick 1010).exec (hardEngine.run hardOps)).1 =
    .ok [hardVictim] by decide +kernel)
  have hcommit := Eff.exec_eq_of_fst (show ((commitPreemptions ["lease-1-1"] 1010).exec
    ((planTick 1010).exec (hardEngine.run hardOps)).2).1 = .ok hardOutcome by decide +kernel)
  have hmid : Moves 0 0 (fun _ => False) (hardEngine.run hardOps) (hardEngine.run hardOps) := .refl
  obtain ⟨hmatching, hagain, hpreempts⟩ := yield_demands_match hstart hardOps hmid hrec
  exact ⟨⟨_, hrec, by decide +kernel, hmatching, hagain⟩, _, _, hplan, hcommit,
    (hpreempts _ _ _ _ hplan hcommit).1 _ rfl⟩

end Tally.Lease
