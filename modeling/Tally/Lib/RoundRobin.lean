import Mathlib.Data.List.Induction
import Mathlib.Data.List.Perm.Basic
import Mathlib.Logic.Function.Basic
import Tally.Lib.Table

/-!
# Dealing in turn

Items are put into one queue for each key, the queues in the order of their first item, and then
dealt in rounds: each round takes the first item of every queue that has one. `roundRobin` deals
every item once and keeps the order within a key, and at any point no queue is more than one item
ahead of another one that is not yet exhausted.
-/

namespace Tally.Lib

variable {α κ : Type} [LinearOrder κ]

/-- The keys in the order of their first item, and the items of each key. -/
structure Queues (κ α : Type) [LinearOrder κ] where
  order : List κ
  groups : Table κ (List α)

def Queues.push (key : α → κ) (queues : Queues κ α) (item : α) : Queues κ α where
  order :=
    if (queues.groups.get? (key item)).isSome then queues.order else queues.order ++ [key item]
  groups :=
    queues.groups.insert (key item) ((queues.groups.get? (key item)).getD [] ++ [item])

def Queues.ofList (key : α → κ) (items : List α) : Queues κ α :=
  items.foldl (Queues.push key) ⟨[], ∅⟩

structure Deal (κ α : Type) [LinearOrder κ] where
  groups : Table κ (List α)
  output : List α
  emitted : Bool

/-- The next item of a key, if there is one. -/
def Deal.turn (deal : Deal κ α) (k : κ) : Deal κ α :=
  match deal.groups.get? k with
  | some (item :: rest) => ⟨deal.groups.insert k rest, deal.output ++ [item], true⟩
  | _ => deal

theorem Deal.turn_cases (deal : Deal κ α) (k : κ) :
    (∃ item rest, deal.groups.get? k = some (item :: rest) ∧
      deal.turn k = ⟨deal.groups.insert k rest, deal.output ++ [item], true⟩) ∨
    (deal.groups.get? k).getD [] = [] ∧ deal.turn k = deal := by
  rw [turn]
  split
  · next item rest hget => exact .inl ⟨item, rest, hget, rfl⟩
  · next hget =>
    refine .inr ⟨?_, rfl⟩
    rcases hqueue : deal.groups.get? k with _ | ⟨_ | ⟨item, rest⟩⟩
    · rfl
    · rfl
    · exact absurd hqueue (hget item rest)

/-- Rounds over all keys, until one of them deals nothing. -/
def rounds (order : List κ) : Nat → Deal κ α → List α
  | 0, deal => deal.output
  | fuel + 1, deal =>
    let next := order.foldl Deal.turn { deal with emitted := false }
    if next.emitted then rounds order fuel next else next.output

def roundRobin (key : α → κ) (items : List α) : List α :=
  let queues := Queues.ofList key items
  rounds queues.order (items.length + 1) ⟨queues.groups, [], false⟩

/-! ## Queues -/

/-- The items of a key. -/
def group (key : α → κ) (items : List α) (k : κ) : List α := items.filter fun item => key item = k

section Group

variable {key : α → κ} {items : List α} {k : κ}

theorem group_append (a b : List α) : group key (a ++ b) k = group key a k ++ group key b k :=
  List.filter_append ..

theorem group_singleton_self (item : α) : group key [item] (key item) = [item] := by
  simp [group]

theorem group_singleton_ne {item : α} (h : k ≠ key item) : group key [item] k = [] := by
  simp [group, Ne.symm h]

theorem key_of_mem_group {item : α} (h : item ∈ group key items k) : key item = k := by
  simpa using (List.mem_filter.mp h).2

theorem length_group_le : (group key items k).length ≤ items.length := List.length_filter_le ..

end Group

section Dealing

variable (key : α → κ) (items : List α)

theorem get?_ofList (k : κ) :
    ((Queues.ofList key items).groups.get? k).getD [] = group key items k ∧
      (((Queues.ofList key items).groups.get? k).isSome ↔ k ∈ (Queues.ofList key items).order) ∧
      (k ∉ (Queues.ofList key items).order → group key items k = []) := by
  induction items using List.reverseRecOn with
  | nil => simp [Queues.ofList, group]
  | append_singleton items item ih =>
    have hpush : Queues.ofList key (items ++ [item]) = (Queues.ofList key items).push key item := by
      simp [Queues.ofList]
    rw [hpush, group_append]
    generalize Queues.ofList key items = queues at ih ⊢
    obtain ⟨hgroup, hsome, hnone⟩ := ih
    by_cases hk : k = key item
    · subst hk
      rw [group_singleton_self]
      refine ⟨by simp [Queues.push, hgroup], ?_, fun hmem => absurd ?_ hmem⟩
      · rw [Queues.push, Table.get?_insert_self]
        dsimp only
        split
        · next h => simpa using hsome.mp h
        · simp
      · rw [Queues.push]
        dsimp only
        split
        · next h => exact hsome.mp h
        · simp
    · have horder : k ∈ (queues.push key item).order ↔ k ∈ queues.order := by
        rw [Queues.push]
        dsimp only
        split <;> simp [hk]
      rw [group_singleton_ne hk, List.append_nil, horder, Queues.push]
      simp only [Table.get?_insert_ne _ _ hk]
      exact ⟨hgroup, hsome, hnone⟩

theorem nodup_order : (Queues.ofList key items).order.Nodup := by
  induction items using List.reverseRecOn with
  | nil => exact List.nodup_nil
  | append_singleton items item ih =>
    have hpush : Queues.ofList key (items ++ [item]) = (Queues.ofList key items).push key item := by
      simp [Queues.ofList]
    have hmem := (get?_ofList key items (key item)).2.1
    rw [hpush, Queues.push]
    dsimp only
    split
    · exact ih
    · next hnone =>
      rw [List.nodup_append]
      refine ⟨ih, List.nodup_singleton _, fun a ha b hb hab => hnone (hmem.mpr ?_)⟩
      rwa [← List.mem_singleton.mp hb, ← hab]

/-! ## Rounds -/

/-- How many items of each key are dealt: `level k` of them, or all. -/
structure Dealt (level : κ → Nat) (deal : Deal κ α) : Prop where
  waiting : ∀ k, (deal.groups.get? k).getD [] = (group key items k).drop (level k)
  dealt : ∀ k, group key deal.output k = (group key items k).take (level k)

/-- All keys have had the same number of turns, or some of them one more. -/
def Even (output : List α) : Prop :=
  ∃ round, ∀ k, (group key output k).length = min round (group key items k).length ∨
    (group key output k).length = min (round + 1) (group key items k).length

variable {key items}

theorem Dealt.even {level : κ → Nat} {deal : Deal κ α} {round : Nat}
    (h : Dealt key items level deal) (hlevel : ∀ k, level k = round ∨ level k = round + 1) :
    Even key items deal.output := by
  refine ⟨round, fun k => ?_⟩
  rw [h.dealt k, List.length_take]
  rcases hlevel k with hk | hk
  · exact .inl (by rw [hk])
  · exact .inr (by rw [hk])

theorem Dealt.turn {level : κ → Nat} {deal : Deal κ α} (h : Dealt key items level deal) (k : κ) :
    Dealt key items (Function.update level k (level k + 1)) (deal.turn k) := by
  have hwaiting := h.waiting k
  rcases deal.turn_cases k with ⟨item, rest, hget, hturn⟩ | ⟨hqueue, hturn⟩ <;> rw [hturn]
  · rw [hget, Option.getD_some] at hwaiting
    have hkey : key item = k :=
      key_of_mem_group (List.mem_of_mem_drop (hwaiting ▸ List.mem_cons_self))
    have htail : (group key items k).drop (level k + 1) = rest := by
      rw [← List.tail_drop, ← hwaiting, List.tail_cons]
    have htake : (group key items k).take (level k + 1) =
        (group key items k).take (level k) ++ [item] := by
      have hhead : (group key items k)[level k]? = some item := by
        rw [← List.head?_drop, ← hwaiting, List.head?_cons]
      rw [List.take_add_one, hhead, Option.toList_some]
    refine ⟨fun q => ?_, fun q => ?_⟩
    · by_cases hq : q = k
      · subst hq
        simp [htail]
      · rw [Table.get?_insert_ne _ _ hq, Function.update_of_ne hq]
        exact h.waiting q
    · rw [group_append]
      by_cases hq : q = k
      · subst hq
        rw [Function.update_self, htake, h.dealt q, ← hkey, group_singleton_self]
      · rw [Function.update_of_ne hq, group_singleton_ne (hkey ▸ hq), List.append_nil]
        exact h.dealt q
  · -- the queue is empty, so one turn more changes nothing
    have hempty : (group key items k).length ≤ level k := by
      rw [← List.drop_eq_nil_iff, ← hwaiting, hqueue]
    refine ⟨fun q => ?_, fun q => ?_⟩
    · by_cases hq : q = k
      · subst hq
        rw [Function.update_self, hwaiting, List.drop_of_length_le hempty,
          List.drop_of_length_le (by omega)]
      · rw [Function.update_of_ne hq]
        exact h.waiting q
    · by_cases hq : q = k
      · subst hq
        rw [Function.update_self, h.dealt q, List.take_of_length_le hempty,
          List.take_of_length_le (by omega)]
      · rw [Function.update_of_ne hq]
        exact h.dealt q

theorem output_turn (deal : Deal κ α) (k : κ) :
    (deal.turn k).output = deal.output ∨ ∃ item, (deal.turn k).output = deal.output ++ [item] := by
  rcases deal.turn_cases k with ⟨item, rest, -, hturn⟩ | ⟨-, hturn⟩ <;> rw [hturn]
  · exact .inr ⟨item, rfl⟩
  · exact .inl rfl

/-- One round, over the keys that have not had their turn in it. -/
theorem Dealt.turns {level : κ → Nat} {deal : Deal κ α} {todo : List κ} {round : Nat}
    (h : Dealt key items level deal) (hnodup : todo.Nodup) (htodo : ∀ k ∈ todo, level k = round)
    (hlevel : ∀ k, level k = round ∨ level k = round + 1)
    (heven : ∀ p, p <+: deal.output → Even key items p) :
    Dealt key items (fun k => if k ∈ todo then round + 1 else level k) (todo.foldl Deal.turn deal) ∧
      ∀ p, p <+: (todo.foldl Deal.turn deal).output → Even key items p := by
  induction todo generalizing level deal with
  | nil => exact ⟨by simpa using h, heven⟩
  | cons k todo ih =>
    obtain ⟨hk, hnodup⟩ := List.nodup_cons.mp hnodup
    have hround := htodo k List.mem_cons_self
    have hturn := h.turn k
    rw [hround] at hturn
    have hlevel' : ∀ q, Function.update level k (round + 1) q = round ∨
        Function.update level k (round + 1) q = round + 1 := by
      intro q
      by_cases hq : q = k
      · subst hq
        simp
      · rw [Function.update_of_ne hq]
        exact hlevel q
    have hstep := ih hturn hnodup ?_ hlevel' ?_
    · have hlevels : (fun q => if q ∈ todo then round + 1 else Function.update level k (round + 1) q)
          = fun q => if q ∈ k :: todo then round + 1 else level q := by
        funext q
        by_cases hq : q = k
        · subst hq
          simp [hk]
        · simp [hq]
      rwa [hlevels] at hstep
    · intro q hq
      have hne : q ≠ k := fun heq => hk (heq ▸ hq)
      rw [Function.update_of_ne hne]
      exact htodo q (List.mem_cons_of_mem _ hq)
    · intro p hp
      rcases output_turn deal k with hsame | ⟨item, happend⟩
      · exact heven p (hsame ▸ hp)
      · rw [happend] at hp
        rcases List.prefix_concat_iff.mp hp with rfl | hp
        · rw [← happend]
          exact hturn.even hlevel'
        · exact heven p hp

theorem turns_of_not_emitted {deal : Deal κ α} {todo : List κ}
    (h : (todo.foldl Deal.turn deal).emitted = false) :
    deal.emitted = false ∧ todo.foldl Deal.turn deal = deal ∧
      ∀ k ∈ todo, (deal.groups.get? k).getD [] = [] := by
  induction todo generalizing deal with
  | nil => exact ⟨h, rfl, fun _ hk => nomatch hk⟩
  | cons k todo ih =>
    obtain ⟨hemitted, hfold, hempty⟩ := ih h
    rw [List.foldl_cons, hfold]
    rcases deal.turn_cases k with ⟨item, rest, -, hturn⟩ | ⟨hqueue, hturn⟩
    · rw [hturn] at hemitted
      cases hemitted
    · rw [hturn] at hemitted hempty ⊢
      refine ⟨hemitted, rfl, fun q hq => ?_⟩
      rcases List.mem_cons.mp hq with rfl | hq
      · exact hqueue
      · exact hempty q hq

theorem rounds_spec {deal : Deal κ α} {fuel : Nat} (round : Nat)
    (h : Dealt key items (fun _ => round) deal)
    (heven : ∀ p, p <+: deal.output → Even key items p)
    (hfuel : items.length ≤ round + fuel) :
    (∀ k, group key (rounds (Queues.ofList key items).order fuel deal) k = group key items k) ∧
      ∀ p, p <+: rounds (Queues.ofList key items).order fuel deal → Even key items p := by
  induction fuel generalizing deal round with
  | zero =>
    refine ⟨fun k => ?_, heven⟩
    have hlen : (group key items k).length ≤ items.length := length_group_le
    rw [rounds, h.dealt k, List.take_of_length_le (by omega)]
  | succ fuel ih =>
    rw [rounds]
    have hround : Dealt key items (fun _ => round) { deal with emitted := false } :=
      ⟨h.waiting, h.dealt⟩
    have hnext := hround.turns (nodup_order key items) (fun _ _ => rfl) (fun _ => .inl rfl) heven
    split
    · refine ih (round + 1) ⟨fun k => ?_, fun k => ?_⟩ hnext.2 (by omega)
      · rw [hnext.1.waiting k]
        split
        · rfl
        · next hk => simp [(get?_ofList key items k).2.2 hk]
      · rw [hnext.1.dealt k]
        split
        · rfl
        · next hk => simp [(get?_ofList key items k).2.2 hk]
    · next hemitted =>
      obtain ⟨-, hsame, hempty⟩ := turns_of_not_emitted (Bool.not_eq_true _ ▸ hemitted)
      rw [hsame]
      refine ⟨fun k => ?_, heven⟩
      by_cases hk : k ∈ (Queues.ofList key items).order
      · have hdrop := h.waiting k
        rw [hempty k hk] at hdrop
        rw [h.dealt k, List.take_of_length_le (List.drop_eq_nil_iff.mp hdrop.symm)]
      · have hnone := (get?_ofList key items k).2.2 hk
        rw [h.dealt k, hnone, List.take_nil]

variable (key items)

theorem roundRobin_spec :
    (∀ k, group key (roundRobin key items) k = group key items k) ∧
      ∀ p, p <+: roundRobin key items → Even key items p := by
  refine rounds_spec 0 ⟨fun k => ?_, fun k => rfl⟩ ?_ (by omega)
  · exact (get?_ofList key items k).1
  · intro p hp
    rw [List.prefix_nil.mp hp]
    exact ⟨0, fun k => .inl (by simp [group])⟩

/-- Every item is dealt, and the items of a key in their order. -/
theorem group_roundRobin (k : κ) : group key (roundRobin key items) k = group key items k :=
  (roundRobin_spec key items).1 k

theorem perm_roundRobin : (roundRobin key items).Perm items := by
  classical
  rw [List.perm_iff_count]
  intro item
  have hcount : ∀ l : List α, l.count item = (group key l (key item)).count item := by
    intro l
    rw [group, List.count_filter (by simp)]
  rw [hcount, group_roundRobin, ← hcount]

/-- At any point, two keys with items left differ by at most one item. -/
theorem prefix_roundRobin_balanced {p : List α} (h : p <+: roundRobin key items) {k q : κ}
    (hk : (group key p k).length < (group key items k).length)
    (hq : (group key p q).length < (group key items q).length) :
    (group key p k).length ≤ (group key p q).length + 1 := by
  obtain ⟨round, heven⟩ := (roundRobin_spec key items).2 p h
  rcases heven k with hk' | hk' <;> rcases heven q with hq' | hq' <;> omega

end Dealing

end Tally.Lib
