import Tally.Flow.Membership

/-!
# How often the membership ledger is compacted

A call that compacts rewrites the whole ledger, so compactions should be rare. One that brings the
ledger down to its target is followed by a tenth of the bound in ordinary appends before the next one
(`compactions_are_rare`). The runs that are protected can keep a compaction from its target; then the
next call may compact again (`two_compactions`).
-/

namespace Tally.Flow

open Tally.Lib

namespace FlowMembership

variable {membership : FlowMembership} {byRun : Table String (Table String FlowMembershipRecord)}

/-- The records of the runs that a compaction takes, and those that stay. -/
theorem flat_foldl_erase_perm {taken : List Candidate}
    (htaken : ∀ c ∈ taken, ∃ run tasks, byRun.get? run = some tasks ∧ c = candidate run tasks)
    (hnodup : (taken.map runOf).Nodup) :
    ∃ gone, (flat byRun).Perm (gone ++ flat ((taken.map runOf).foldl Table.erase byRun)) ∧
      gone.length = (taken.map heldOf).sum := by
  induction taken generalizing byRun with
  | nil => exact ⟨[], .rfl, rfl⟩
  | cons c taken ih =>
    rw [List.map_cons, List.nodup_cons] at hnodup
    obtain ⟨run, tasks, hrun, rfl⟩ := htaken c (List.mem_cons_self ..)
    have hrest : ∀ c ∈ taken, ∃ other tasks, (byRun.erase run).get? other = some tasks ∧
        c = candidate other tasks := by
      intro c hc
      obtain ⟨other, others, hother, rfl⟩ := htaken c (List.mem_cons_of_mem _ hc)
      refine ⟨other, others, ?_, rfl⟩
      rw [Table.get?_erase, if_neg, hother]
      rintro rfl
      exact hnodup.1 (List.mem_map.mpr ⟨_, hc, rfl⟩)
    obtain ⟨gone, hperm, hlength⟩ := ih hrest hnodup.2
    have hfirst := ((byRun.entries_perm_of_get? hrun).map Prod.snd).flatMap_right Table.values
    rw [List.map_cons, List.flatMap_cons] at hfirst
    refine ⟨tasks.values ++ gone, ?_, ?_⟩
    · rw [List.append_assoc]
      exact hfirst.trans (hperm.append_left _)
    · rw [List.length_append, hlength, List.map_cons, List.sum_cons]
      simp [heldOf, candidate, Table.values]

/-- The number of the records whose runs may not be dropped. -/
def protectedRecords (membership : FlowMembership) (runs : Finset String) : Nat :=
  (flat membership.byRun).countP fun record => record.flowRunId ∈ runs

theorem nodup_runOf_candidates (membership : FlowMembership) (runs : Finset String) :
    ((membership.candidates runs).map runOf).Nodup := by
  have hperm := (List.perm_insertionSort (· ≤ ·) ((membership.byRun.entries.filter fun entry =>
    entry.1 ∉ runs).map fun entry => candidate entry.1 entry.2)).map runOf
  rw [candidates, hperm.nodup_iff, List.map_map]
  exact membership.byRun.nodup_keys.sublist (List.filter_sublist.map Prod.fst)

/-- A compaction reaches its target, unless the protected records are more. -/
theorem length_withoutRuns_le (hkeyed : Keyed membership.byRun) (hcounted : membership.Counted)
    {target : Nat} {runs : Finset String} (hrecords : membership.protectedRecords runs ≤ target) :
    (membership.withoutRuns (membership.evictionPlan target runs)).length ≤ target := by
  rw [evictionPlan]
  split
  · next hle =>
    rw [hcounted] at hle
    exact hle
  · obtain ⟨taken, kept, hsplit, hruns, htarget⟩ :=
      takeRuns_eq target membership.records (membership.candidates runs)
    have hnodup : (taken.map runOf).Nodup := by
      have hall := nodup_runOf_candidates membership runs
      rw [hsplit, List.map_append] at hall
      exact (List.nodup_append.mp hall).1
    have htaken : ∀ c ∈ taken, ∃ run tasks, membership.byRun.get? run = some tasks ∧
        c = candidate run tasks := by
      intro c hc
      obtain ⟨run, tasks, hrun, -, rfl⟩ :=
        mem_candidates.mp (hsplit ▸ List.mem_append_left kept hc)
      exact ⟨run, tasks, hrun, rfl⟩
    obtain ⟨gone, hperm, hgone⟩ := flat_foldl_erase_perm htaken hnodup
    rw [hruns, withoutRuns, ← flat]
    rcases htarget with hnil | hle
    · -- everything that is not protected is gone
      have hstays : ∀ record ∈ flat ((taken.map runOf).foldl Table.erase membership.byRun),
          decide (record.flowRunId ∈ runs) = true := by
        intro record hrecord
        rw [decide_eq_true_eq]
        by_contra hunprotected
        obtain ⟨run, tasks, task, hrun, htask⟩ := mem_flat.mp hrecord
        rw [Table.get?_foldl_erase] at hrun
        split at hrun
        · cases hrun
        · next hnot =>
          obtain ⟨rfl, -⟩ := hkeyed.keys run tasks hrun task record htask
          have hmem := mem_candidates.mpr ⟨record.flowRunId, tasks, hrun, hunprotected, rfl⟩
          rw [hsplit, hnil, List.append_nil] at hmem
          exact hnot (List.mem_map.mpr ⟨_, hmem, rfl⟩)
      rw [protectedRecords, hperm.countP_eq, List.countP_append,
        List.countP_eq_length.mpr hstays] at hrecords
      omega
    · have hlength := hperm.length_eq
      rw [List.length_append, hgone, ← hcounted] at hlength
      omega

end FlowMembership

namespace MembershipLedger

/-- The call adds a new record and rewrites the ledger. -/
def Rewrites (ledger : MembershipLedger) (call : MembershipCall) : Prop :=
  ledger.held.contains call.record.flowRunId call.record.taskUuid = false ∧ ledger.plan call ≠ []

/-- The call adds a new record to the end of the ledger. -/
def Appends (ledger : MembershipLedger) (call : MembershipCall) : Prop :=
  ledger.held.contains call.record.flowRunId call.record.taskUuid = false ∧ ledger.plan call = []

instance (ledger : MembershipLedger) (call : MembershipCall) : Decidable (ledger.Rewrites call) :=
  inferInstanceAs (Decidable (_ ∧ _))

instance (ledger : MembershipLedger) (call : MembershipCall) : Decidable (ledger.Appends call) :=
  inferInstanceAs (Decidable (_ ∧ _))

/-- The protected records fit into the target of a compaction. -/
def Reaches (ledger : MembershipLedger) (call : MembershipCall) : Prop :=
  (ledger.index call).protectedRecords
    ((ledger.index call).protectedRuns call.record.flowRunId call.liveTasks) ≤
      flowMembershipCompactTo call.maxRecords

instance (ledger : MembershipLedger) (call : MembershipCall) : Decidable (ledger.Reaches call) :=
  inferInstanceAs (Decidable (_ ≤ _))

variable [Chrono] [JsonText]

/-- Every call of the run succeeds. -/
def Succeeds : MembershipLedger → List MembershipCall → Prop
  | _, [] => True
  | ledger, call :: calls => (ledger.call call).1.isOk = true ∧ Succeeds (ledger.step call) calls

/-- Every call of the run that rewrites the ledger reaches its target. -/
def ReachesAlways : MembershipLedger → List MembershipCall → Prop
  | _, [] => True
  | ledger, call :: calls =>
    (ledger.Rewrites call → ledger.Reaches call) ∧ ReachesAlways (ledger.step call) calls

instance decidableSucceeds :
    (ledger : MembershipLedger) → (calls : List MembershipCall) → Decidable (Succeeds ledger calls)
  | _, [] => inferInstanceAs (Decidable True)
  | ledger, call :: calls =>
    have := decidableSucceeds (ledger.step call) calls
    inferInstanceAs (Decidable (_ ∧ _))

instance decidableReachesAlways :
    (ledger : MembershipLedger) → (calls : List MembershipCall) →
      Decidable (ReachesAlways ledger calls)
  | _, [] => inferInstanceAs (Decidable True)
  | ledger, call :: calls =>
    have := decidableReachesAlways (ledger.step call) calls
    inferInstanceAs (Decidable ((_ → _) ∧ _))

/-- The number of the calls of a run that append. -/
def appends : MembershipLedger → List MembershipCall → Nat
  | _, [] => 0
  | ledger, call :: calls =>
    (if ledger.Appends call then 1 else 0) + appends (ledger.step call) calls

/-- The index is as a reader makes it. -/
def Indexed (ledger : MembershipLedger) : Prop :=
  FlowMembership.Keyed ledger.held.byRun ∧ ledger.held.Counted

variable {ledger : MembershipLedger} {call : MembershipCall}

theorem indexed_of_read (h : FlowMembership.read ledger.file = .ok ledger.held) : ledger.Indexed := by
  rw [FlowMembership.read] at h
  obtain ⟨records, -, hrecords⟩ := bind_ok_iff.mp h
  rw [Indexed, ← Except.ok.inj hrecords]
  exact ⟨FlowMembership.keyed_fromRecords records, FlowMembership.counted_fromRecords records⟩

/-- What a call that succeeds does to the number of the records. -/
theorem records_step (hindexed : ledger.Indexed) (hok : (ledger.call call).1.isOk = true) :
    (ledger.step call).Indexed ∧
      (ledger.held.contains call.record.flowRunId call.record.taskUuid = true ∧
          (ledger.step call).held.records = ledger.held.records ∨
        ledger.Rewrites call ∧ call.maxRecords ≤ ledger.held.records ∧
          (ledger.Reaches call →
            (ledger.step call).held.records ≤ flowMembershipCompactTo call.maxRecords) ∨
        ledger.Appends call ∧ (ledger.step call).held.records = ledger.held.records + 1) := by
  have houtcome := outcome_call ledger call
  rw [step]
  rcases hcall : ledger.call call with ⟨result, file⟩
  rw [hcall] at hok houtcome
  cases result with
  | error error => cases hok
  | ok value =>
    obtain ⟨write, index⟩ := value
    dsimp only
    cases houtcome with
    | alreadyHeld hcontains => exact ⟨hindexed, .inl ⟨hcontains, rfl⟩⟩
    | added _ bytes hvalid hnew hplan hresult =>
      obtain ⟨-, rfl, -⟩ := hresult _ _ rfl
      refine ⟨⟨hindexed.1.insert _, hindexed.2.insert _⟩, .inr (.inr ⟨⟨hnew, hplan⟩, ?_⟩)⟩
      rw [MembershipLedger.index, FlowMembership.insert_of_not_contains hnew]
    | rewritten _ hvalid hnew hplan hresult =>
      obtain ⟨-, rfl⟩ := hresult _ _ rfl
      have hkeyed : FlowMembership.Keyed (ledger.index call).byRun := hindexed.1.insert _
      have hcounted : (ledger.index call).Counted := hindexed.2.insert _
      have hlength : (FlowMembership.fromRecords (ledger.kept call)).records =
          (ledger.kept call).length := by
        rw [FlowMembership.counted_fromRecords, kept, FlowMembership.withoutRuns,
          ← FlowMembership.flat, FlowMembership.byRun_fromRecords_flat (hkeyed.foldl_erase _)]
      refine ⟨⟨FlowMembership.keyed_fromRecords _, FlowMembership.counted_fromRecords _⟩,
        .inr (.inl ⟨⟨hnew, hplan⟩, ?_, ?_⟩)⟩
      · rw [plan, compactionPlan] at hplan
        split at hplan
        · next hover =>
          rw [MembershipLedger.index, FlowMembership.insert_of_not_contains hnew] at hover
          exact Nat.lt_succ_iff.mp hover
        · exact absurd rfl hplan
      · intro hreaches
        have hover : call.maxRecords < (ledger.index call).records := by
          by_contra hover
          rw [plan, compactionPlan, if_neg hover] at hplan
          exact hplan rfl
        rw [hlength, kept, plan, compactionPlan, if_pos hover]
        exact FlowMembership.length_withoutRuns_le hkeyed hcounted hreaches

theorem indexed_run (hindexed : ledger.Indexed) {calls : List MembershipCall}
    (hok : Succeeds ledger calls) : (ledger.run calls).Indexed := by
  induction calls generalizing ledger with
  | nil => exact hindexed
  | cons call calls ih => exact ih (records_step hindexed hok.1).1 hok.2

/-- Above the target, the ledger has grown by an append for each record. -/
theorem records_run_le (hindexed : ledger.Indexed) {calls : List MembershipCall} {maxRecords n : Nat}
    (hbound : ∀ call ∈ calls, call.maxRecords = maxRecords) (hok : Succeeds ledger calls)
    (hreaches : ReachesAlways ledger calls)
    (hle : ledger.held.records ≤ flowMembershipCompactTo maxRecords + n) :
    (ledger.run calls).held.records ≤
      flowMembershipCompactTo maxRecords + n + appends ledger calls := by
  induction calls generalizing ledger n with
  | nil => exact hle
  | cons call calls ih =>
    obtain ⟨hstep, hcases⟩ := records_step hindexed hok.1
    have hmax := hbound call (List.mem_cons_self ..)
    have hrest : ∀ m, (ledger.step call).held.records ≤ flowMembershipCompactTo maxRecords + m →
        (ledger.run (call :: calls)).held.records ≤
          flowMembershipCompactTo maxRecords + m + appends (ledger.step call) calls := fun m =>
      ih hstep (fun other hother => hbound other (List.mem_cons_of_mem _ hother)) hok.2 hreaches.2
    rw [appends]
    rcases hcases with ⟨-, hrecords⟩ | ⟨hrewrites, -, htarget⟩ | ⟨happends, hrecords⟩
    · have := hrest n (by omega)
      omega
    · have htarget := htarget (hreaches.1 hrewrites)
      rw [hmax] at htarget
      have := hrest n (by omega)
      omega
    · have := hrest (n + 1) (by omega)
      rw [if_pos happends]
      omega

/-- The parts of a run that succeeds. -/
theorem succeeds_append {first second : List MembershipCall} (h : Succeeds ledger (first ++ second)) :
    Succeeds ledger first ∧ Succeeds (ledger.run first) second := by
  induction first generalizing ledger with
  | nil => exact ⟨trivial, h⟩
  | cons call first ih =>
    obtain ⟨hfirst, hsecond⟩ := ih h.2
    exact ⟨⟨h.1, hfirst⟩, hsecond⟩

theorem reachesAlways_append {first second : List MembershipCall}
    (h : ReachesAlways ledger (first ++ second)) :
    ReachesAlways ledger first ∧ ReachesAlways (ledger.run first) second := by
  induction first generalizing ledger with
  | nil => exact ⟨trivial, h⟩
  | cons call first ih =>
    obtain ⟨hfirst, hsecond⟩ := ih h.2
    exact ⟨⟨h.1, hfirst⟩, hsecond⟩

/-- In a run of calls that succeed, and whose compactions reach their target, at least a tenth of the
bound is appended between any two compactions. -/
theorem compactions_are_rare (ledger : MembershipLedger) (maxRecords : Nat)
    (before middle after : List MembershipCall) (first second : MembershipCall)
    (hread : FlowMembership.read ledger.file = .ok ledger.held)
    (hbound : ∀ call ∈ before ++ first :: (middle ++ second :: after), call.maxRecords = maxRecords)
    (hok : Succeeds ledger (before ++ first :: (middle ++ second :: after)))
    (hreaches : ReachesAlways ledger (before ++ first :: (middle ++ second :: after)))
    (hfirst : (ledger.run before).Rewrites first)
    (hsecond : (((ledger.run before).step first).run middle).Rewrites second) :
    maxRecords / 10 - 1 ≤ appends ((ledger.run before).step first) middle := by
  obtain ⟨hokBefore, hok⟩ := succeeds_append hok
  obtain ⟨-, hreaches⟩ := reachesAlways_append hreaches
  have hindexed := indexed_run (indexed_of_read hread) hokBefore
  generalize ledger.run before = ledger at hindexed hok hreaches hfirst hsecond ⊢
  obtain ⟨hstep, hcases⟩ := records_step hindexed hok.1
  have hmaxFirst : first.maxRecords = maxRecords := hbound first (by simp)
  have hmaxSecond : second.maxRecords = maxRecords := hbound second (by simp)
  have htarget : (ledger.step first).held.records ≤ flowMembershipCompactTo maxRecords := by
    rcases hcases with ⟨hheld, -⟩ | ⟨-, -, htarget⟩ | ⟨happends, -⟩
    · rw [hfirst.1] at hheld
      cases hheld
    · rw [← hmaxFirst]
      exact htarget (hreaches.1 hfirst)
    · exact absurd happends.2 hfirst.2
  obtain ⟨hokMiddle, hok⟩ := succeeds_append hok.2
  obtain ⟨hreachesMiddle, -⟩ := reachesAlways_append hreaches.2
  have hrecords := records_run_le (n := 0) hstep (fun call hcall => hbound call (by simp [hcall]))
    hokMiddle hreachesMiddle htarget
  obtain ⟨-, hcases⟩ := records_step (indexed_run hstep hokMiddle) hok.1
  have hover : maxRecords ≤ ((ledger.step first).run middle).held.records := by
    rcases hcases with ⟨hheld, -⟩ | ⟨-, hover, -⟩ | ⟨happends, -⟩
    · rw [hsecond.1] at hheld
      cases hheld
    · rwa [hmaxSecond] at hover
    · exact absurd happends.2 hsecond.2
  unfold flowMembershipCompactTo at hrecords
  omega

end MembershipLedger

/-! ## Compactions in a row -/

namespace CompactionSample

instance : Chrono := ⟨fun _ => true⟩

local instance : JsonText := compactReader

/-- Calls with a bound of twenty records, while one task is live. -/
def admission (run task now : String) : MembershipCall :=
  ⟨.new run task .created none none now, {"live"}, 20, .fine⟩

def names : List String :=
  ["a", "b", "c", "d", "e", "f", "g", "h", "i", "j", "k", "l", "m", "n", "o", "p", "q", "r", "s", "t"]

/-- Twenty runs of one task each. -/
def shortRuns : List MembershipCall := names.map fun name => admission name "done" name

theorem compactions_are_rare_short :
    (MembershipLedger.run {} shortRuns).Rewrites (admission "u" "done" "u") ∧
    20 / 10 - 1 ≤ MembershipLedger.appends
      ((MembershipLedger.run {} shortRuns).step (admission "u" "done" "u"))
      [admission "v" "done" "v", admission "w" "done" "w"] := by
  have hrewrites : (MembershipLedger.run {} shortRuns).Rewrites (admission "u" "done" "u") := by
    decide +kernel
  refine ⟨hrewrites, ?_⟩
  refine MembershipLedger.compactions_are_rare {} 20 shortRuns
    [admission "v" "done" "v", admission "w" "done" "w"] [] (admission "u" "done" "u") (admission "x" "done" "x")
    rfl ?_ ?_ ?_ hrewrites ?_
  · decide +kernel
  · decide +kernel
  · decide +kernel
  · decide +kernel

/-- A run of twenty tasks, one of them live, and a run that is done. -/
def longRun : List MembershipCall :=
  admission "long" "live" "a" :: names.map fun name => admission "long" name name

theorem two_compactions :
    MembershipLedger.Succeeds {}
      (longRun ++ [admission "u" "done" "u", admission "v" "done" "v", admission "w" "done" "w"]) ∧
    (∀ call ∈ longRun ++ [admission "u" "done" "u", admission "v" "done" "v", admission "w" "done" "w"],
      call.maxRecords = 20) ∧
    (MembershipLedger.run {} (longRun ++ [admission "u" "done" "u"])).Rewrites (admission "v" "done" "v") ∧
    ((MembershipLedger.run {} (longRun ++ [admission "u" "done" "u"])).step
      (admission "v" "done" "v")).Rewrites (admission "w" "done" "w") ∧
    ¬ 20 / 10 - 1 ≤ MembershipLedger.appends
      ((MembershipLedger.run {} (longRun ++ [admission "u" "done" "u"])).step (admission "v" "done" "v"))
      [] := by
  refine ⟨?_, ?_, ?_, ?_, ?_⟩
  · decide +kernel
  · decide +kernel
  · decide +kernel
  · decide +kernel
  · decide +kernel

end CompactionSample

end Tally.Flow
