import Tally.Lease.Tickets

/-!
# The braided queue

Who stands before whom in the pending queue. Right after a sort, the oldest request of a scheduling
group has at most one request of every other group ahead of it, and only one that is older
(`ahead_sortByKey`). Taking requests out of the queue lets nobody overtake (`ahead_sublist`).
-/

namespace Tally.Lease

namespace LeaseEngine

/-- The requests of a group that stand before a ticket in the queue. -/
def ahead (ticketId : String) (group : LeaseSchedulingGroup) (pending : List PendingRequest) :
    List PendingRequest :=
  (pending.takeWhile (!hasTicket ticketId ·)).filter fun q =>
    decide (q.request.schedulingGroup = group)

/-- The request is the oldest pending one of its scheduling group. -/
def Oldest (pending : List PendingRequest) (b : PendingRequest) : Prop :=
  ∀ q ∈ pending, q.request.schedulingGroup = b.request.schedulingGroup → b.sequence ≤ q.sequence

theorem ahead_cons {ticketId : String} {group : LeaseSchedulingGroup} {q : PendingRequest}
    {rest : List PendingRequest} (h : q.ticketId ≠ ticketId) :
    (ahead ticketId group (q :: rest)).length =
      (ahead ticketId group rest).length +
        if q.request.schedulingGroup = group then 1 else 0 := by
  rw [ahead, List.takeWhile_cons_of_pos (by simpa [hasTicket] using h), List.filter_cons]
  by_cases hg : q.request.schedulingGroup = group
  · simp [hg, ahead]
  · simp [hg, ahead]

theorem takeWhile_sublist_of_sublist {ticketId : String} {l' l : List PendingRequest}
    (hsub : l'.Sublist l) (hnodup : (l.map (·.ticketId)).Nodup)
    (hmem : ticketId ∈ l'.map (·.ticketId)) :
    (l'.takeWhile (!hasTicket ticketId ·)).Sublist (l.takeWhile (!hasTicket ticketId ·)) := by
  induction hsub with
  | slnil => exact .slnil
  | @cons l' l q hsub ih =>
    rw [List.map_cons, List.nodup_cons] at hnodup
    have hq : q.ticketId ≠ ticketId := by
      rintro rfl
      exact hnodup.1 ((hsub.map _).subset hmem)
    rw [List.takeWhile_cons_of_pos (by simpa [hasTicket] using hq)]
    exact (ih hnodup.2 hmem).cons q
  | @cons_cons l' l q hsub ih =>
    rw [List.map_cons, List.nodup_cons] at hnodup
    by_cases hq : q.ticketId = ticketId
    · rw [List.takeWhile_cons_of_neg (by simpa [hasTicket] using hq)]
      exact List.nil_sublist _
    · have hrest : ticketId ∈ l'.map (·.ticketId) := by
        rw [List.map_cons] at hmem
        exact (List.mem_cons.mp hmem).resolve_left (Ne.symm hq)
      rw [List.takeWhile_cons_of_pos (by simpa [hasTicket] using hq),
        List.takeWhile_cons_of_pos (by simpa [hasTicket] using hq)]
      exact (ih hnodup.2 hrest).cons_cons q

/-- Nobody overtakes a request when others leave the queue. -/
theorem ahead_sublist {ticketId : String} {group : LeaseSchedulingGroup}
    {l' l : List PendingRequest} (hsub : l'.Sublist l) (hnodup : (l.map (·.ticketId)).Nodup)
    (hmem : ticketId ∈ l'.map (·.ticketId)) :
    (ahead ticketId group l').length ≤ (ahead ticketId group l).length :=
  ((takeWhile_sublist_of_sublist hsub hnodup hmem).filter _).length_le

/-! ## Sorting -/

section Sorting

variable {pending : List PendingRequest} {rank : Nat}

theorem mem_groupSequences {group : LeaseSchedulingGroup} {n : Nat} :
    n ∈ groupSequences pending rank group ↔ ∃ q ∈ pending, q.effectiveRank = rank ∧
      q.request.schedulingGroup = group ∧ q.sequence = n := by
  simp [groupSequences, and_assoc]

/-- The head of the sorted sequence numbers of a group is one of them, and the least. -/
theorem headD_groupSequences {group : LeaseSchedulingGroup} {n : Nat}
    (h : n ∈ groupSequences pending rank group) :
    (groupSequences pending rank group).headD 0 ∈ groupSequences pending rank group ∧
      (groupSequences pending rank group).headD 0 ≤ n := by
  have hsorted : (groupSequences pending rank group).Pairwise (· ≤ ·) :=
    List.pairwise_insertionSort _ _
  cases hs : groupSequences pending rank group with
  | nil =>
    rw [hs] at h
    cases h
  | cons m rest =>
    rw [hs] at h hsorted
    refine ⟨List.mem_cons_self, ?_⟩
    rcases List.mem_cons.mp h with rfl | h
    · exact Nat.le_refl _
    · exact List.rel_of_pairwise_cons hsorted h

theorem braid_oldest {b : PendingRequest} (hb : b ∈ pending) (hold : Oldest pending b) :
    braid pending b = (0, b.sequence) := by
  have hmem : b.sequence ∈
      groupSequences pending b.effectiveRank b.request.schedulingGroup :=
    mem_groupSequences.mpr ⟨b, hb, rfl, rfl, rfl⟩
  obtain ⟨hhead, hle⟩ := headD_groupSequences hmem
  obtain ⟨q, hq, -, hgroup, hseq⟩ := mem_groupSequences.mp hhead
  have heq : (groupSequences pending b.effectiveRank b.request.schedulingGroup).headD 0 =
      b.sequence := Nat.le_antisymm hle (hseq ▸ hold q hq hgroup)
  unfold braid
  dsimp only
  rw [heq]
  cases hs : groupSequences pending b.effectiveRank b.request.schedulingGroup with
  | nil =>
    rw [hs] at hmem
    cases hmem
  | cons m rest =>
    rw [hs, List.headD_cons] at heq
    rw [heq, List.idxOf_cons_self]

/-- A request that sorts before the oldest one of another group is the oldest of its own group, and
older than that one. -/
theorem sortKey_le_oldest {b q : PendingRequest} (hb : b ∈ pending) (hq : q ∈ pending)
    (hrank : ∀ q ∈ pending, q.effectiveRank = rank) (hold : Oldest pending b)
    (hnodup : (pending.map (·.sequence)).Nodup)
    (hgroup : q.request.schedulingGroup ≠ b.request.schedulingGroup)
    (hle : sortKey pending q ≤ sortKey pending b) :
    q.sequence = (groupSequences pending rank q.request.schedulingGroup).headD 0 ∧
      q.sequence < b.sequence := by
  have hmem : q.sequence ∈ groupSequences pending rank q.request.schedulingGroup :=
    mem_groupSequences.mpr ⟨q, hq, hrank q hq, rfl, rfl⟩
  obtain ⟨hhead, -⟩ := headD_groupSequences hmem
  rw [sortKey, sortKey, braid_oldest hb hold] at hle
  simp only [Prod.Lex.toLex_le_toLex, hrank q hq, hrank b hb, lt_irrefl, false_or, true_and,
    Nat.not_lt_zero] at hle
  obtain ⟨hplace, hage⟩ := hle
  have hbraid : (braid pending q).2 =
      (groupSequences pending rank q.request.schedulingGroup).headD 0 := by
    simp [braid, hrank q hq]
  have hfirst : q.sequence = (groupSequences pending rank q.request.schedulingGroup).headD 0 := by
    have hidx : (groupSequences pending rank q.request.schedulingGroup).idxOf q.sequence = 0 := by
      simpa [braid, hrank q hq] using hplace
    cases hs : groupSequences pending rank q.request.schedulingGroup with
    | nil =>
      rw [hs] at hmem
      cases hmem
    | cons m rest =>
      rw [hs] at hidx
      by_contra hne
      rw [List.idxOf_cons_ne _ (fun h => hne (by simpa using h.symm))] at hidx
      cases hidx
  refine ⟨hfirst, ?_⟩
  rw [hbraid, ← hfirst] at hage
  rcases hage with hlt | ⟨heq, -⟩
  · exact hlt
  · rw [List.inj_on_of_nodup_map hnodup hq hb heq] at hgroup
    exact absurd rfl hgroup

theorem pairwise_sortByKey (pending : List PendingRequest) :
    (sortByKey pending).Pairwise fun left right =>
      sortKey pending left ≤ sortKey pending right := by
  have htotal : Std.Total fun left right => sortKey pending left ≤ sortKey pending right :=
    ⟨fun _ _ => le_total _ _⟩
  have htrans : IsTrans _ fun left right => sortKey pending left ≤ sortKey pending right :=
    ⟨fun _ _ _ => le_trans⟩
  exact List.pairwise_insertionSort _ _

/-- Right after a sort, the oldest request of a group has at most one request of another group ahead
of it, and then that group has an older one pending. -/
theorem ahead_sortByKey {b : PendingRequest} (hb : b ∈ pending)
    (hrank : ∀ q ∈ pending, q.effectiveRank = rank) (hold : Oldest pending b)
    (hnodup : (pending.map (·.sequence)).Nodup)
    {group : LeaseSchedulingGroup} (hgroup : group ≠ b.request.schedulingGroup) :
    (ahead b.ticketId group (sortByKey pending)).length ≤ 1 ∧
      ((ahead b.ticketId group (sortByKey pending)).length = 1 →
        ∃ q ∈ pending, q.request.schedulingGroup = group ∧ q.sequence < b.sequence) := by
  have hperm := perm_sortByKey pending
  have hsorted := pairwise_sortByKey pending
  -- everything before the ticket sorts before `b`
  have hbefore : ∀ q ∈ ahead b.ticketId group (sortByKey pending), q ∈ pending ∧
      q.request.schedulingGroup = group ∧ sortKey pending q ≤ sortKey pending b := by
    intro q hq
    simp only [ahead, List.mem_filter, decide_eq_true_eq] at hq
    refine ⟨hperm.mem_iff.mp (List.takeWhile_subset _ hq.1), hq.2, ?_⟩
    have hb' : b ∈ (sortByKey pending).dropWhile (!hasTicket b.ticketId ·) := by
      have hmem := hperm.mem_iff.mpr hb
      rw [← List.takeWhile_append_dropWhile (p := (!hasTicket b.ticketId ·)) (l := sortByKey pending),
        List.mem_append] at hmem
      refine hmem.resolve_left fun htake => ?_
      simpa [hasTicket] using List.mem_takeWhile_imp htake
    rw [← List.takeWhile_append_dropWhile (p := (!hasTicket b.ticketId ·)) (l := sortByKey pending),
      List.pairwise_append] at hsorted
    exact hsorted.2.2 q hq.1 b hb'
  have hfirst : ∀ q ∈ ahead b.ticketId group (sortByKey pending),
      q.sequence = (groupSequences pending rank group).headD 0 ∧ q.sequence < b.sequence := by
    intro q hq
    obtain ⟨hmem, rfl, hle⟩ := hbefore q hq
    exact sortKey_le_oldest hb hmem hrank hold hnodup hgroup hle
  have hunique : ((ahead b.ticketId group (sortByKey pending)).map (·.sequence)).Nodup := by
    refine List.Nodup.sublist ?_ ((hperm.map (·.sequence)).nodup_iff.mpr hnodup)
    exact (List.filter_sublist.trans (List.takeWhile_sublist _)).map _
  cases hs : ahead b.ticketId group (sortByKey pending) with
  | nil => simp
  | cons q rest =>
    rw [hs] at hfirst hunique hbefore
    cases rest with
    | nil =>
      obtain ⟨hmem, hq, -⟩ := hbefore q List.mem_cons_self
      exact ⟨Nat.le_refl _, fun _ => ⟨q, hmem, hq, (hfirst q List.mem_cons_self).2⟩⟩
    | cons q' rest =>
      have h₁ := (hfirst q List.mem_cons_self).1
      have h₂ := (hfirst q' (List.mem_cons_of_mem _ List.mem_cons_self)).1
      simp [h₁, h₂] at hunique

end Sorting

end LeaseEngine

end Tally.Lease
