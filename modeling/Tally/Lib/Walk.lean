import Mathlib.Logic.Relation
import Mathlib.Data.List.Chain
import Mathlib.Data.List.Nodup
import Mathlib.Data.List.Perm.Subperm

/-!
# Walks along links

Elements that are linked one after another: each has at most one next element and at most one before
it, and no walk returns. A loop that follows the links and counts its steps ends by itself when it may
take as many steps as there are links (`Linked.next_walkEnd`), so walking back to the first element and
from it to the last one gives the whole path of an element (`Linked.eq_wholePath_iff`).
-/

namespace Tally.Lib

open Relation

variable {α : Type} {next prev : α → Option α}

/-- One step along the links. -/
def Leads (next : α → Option α) (a b : α) : Prop := next a = some b

/-- An element and those after it, as far as `n` steps go. -/
def walk (next : α → Option α) : Nat → α → List α
  | 0, a => [a]
  | n + 1, a => a :: (next a).elim [] (walk next n)

/-- Where a walk of `n` steps ends. -/
def walkEnd (next : α → Option α) : Nat → α → α
  | 0, a => a
  | n + 1, a => (next a).elim a (walkEnd next n)

/-- Whether a walk comes to the target, or does not end in `n` steps. -/
def meets [DecidableEq α] (next : α → Option α) (target : α) : Nat → α → Bool
  | 0, _ => true
  | n + 1, a => (next a).elim false fun b => if b = target then true else meets next target n b

theorem not_leads_iff {a : α} : (∀ b, ¬ Leads next a b) ↔ next a = none :=
  Option.eq_none_iff_forall_ne_some.symm

theorem Leads.eq {a b c : α} (h : Leads next a b) (h' : Leads next a c) : b = c :=
  Option.some.inj (h.symm.trans h')

theorem exists_walk_eq_cons (next : α → Option α) (n : Nat) (a : α) : ∃ rest, walk next n a = a :: rest := by
  cases n with
  | zero => exact ⟨[], rfl⟩
  | succ n => exact ⟨_, rfl⟩

theorem getLast?_walk (next : α → Option α) (n : Nat) (a : α) : (walk next n a).getLast? = some (walkEnd next n a) := by
  induction n generalizing a with
  | zero => rfl
  | succ n ih =>
    cases hnext : next a with
    | none => simp [walk, walkEnd, hnext]
    | some b => simp [walk, walkEnd, hnext, List.getLast?_cons, ih b]

theorem isChain_walk (next : α → Option α) (n : Nat) (a : α) : (walk next n a).IsChain (Leads next) := by
  induction n generalizing a with
  | zero => exact .singleton a
  | succ n ih =>
    cases hnext : next a with
    | none => simp [walk, hnext]
    | some b =>
      obtain ⟨rest, hrest⟩ := exists_walk_eq_cons next n b
      rw [walk, hnext, Option.elim_some, hrest]
      refine .cons_cons hnext ?_
      rw [← hrest]
      exact ih b

theorem reflTransGen_walkEnd (n : Nat) (a : α) : ReflTransGen (Leads next) a (walkEnd next n a) := by
  induction n generalizing a with
  | zero => exact .refl
  | succ n ih =>
    cases hnext : next a with
    | none =>
      rw [walkEnd, hnext]
      exact .refl
    | some b =>
      rw [walkEnd, hnext]
      exact .head hnext (ih b)

/-- A walk that is cut off has taken all its steps. -/
theorem length_walk {n : Nat} {a b : α} (h : Leads next (walkEnd next n a) b) :
    (walk next n a).length = n + 1 := by
  induction n generalizing a with
  | zero => rfl
  | succ n ih =>
    cases hnext : next a with
    | none =>
      rw [walkEnd, hnext] at h
      exact absurd (h.symm.trans hnext) nofun
    | some c =>
      rw [walkEnd, hnext] at h
      rw [walk, hnext, Option.elim_some, List.length_cons, ih h]

/-- A path that ends where nothing is next is the walk. -/
theorem eq_walk {n : Nat} {a last : α} {rest : List α} (hchain : (a :: rest).IsChain (Leads next))
    (hlast : (a :: rest).getLast? = some last) (hend : next last = none) (hlen : rest.length ≤ n) :
    a :: rest = walk next n a := by
  induction rest generalizing a n with
  | nil =>
    obtain rfl : a = last := Option.some.inj hlast
    cases n with
    | zero => rfl
    | succ n =>
      rw [walk, hend]
      rfl
  | cons b rest ih =>
    rw [List.length_cons] at hlen
    rw [List.getLast?_cons_cons] at hlast
    obtain ⟨m, rfl⟩ : ∃ m, n = m + 1 := ⟨n - 1, by omega⟩
    cases hchain with
    | cons_cons hab hrest =>
      rw [walk, hab, Option.elim_some, ih hrest hlast (Nat.le_of_succ_le_succ hlen)]

/-- A path that ends where nothing is next holds what comes after its elements. -/
theorem mem_of_reflTransGen {a b last : α} {path : List α} (hchain : path.IsChain (Leads next))
    (hlast : path.getLast? = some last) (hend : next last = none) (ha : a ∈ path)
    (h : ReflTransGen (Leads next) a b) : b ∈ path := by
  induction h with
  | refl => exact ha
  | @tail c d _ hcd ih =>
    obtain ⟨before, after, rfl⟩ := List.append_of_mem ih
    cases after with
    | nil =>
      rw [List.getLast?_concat, Option.some.injEq] at hlast
      subst hlast
      exact absurd (hcd.symm.trans hend) nofun
    | cons e after =>
      have hce : Leads next c e := by
        cases hchain.right_of_append with
        | cons_cons hce _ => exact hce
      rw [hcd.eq hce]
      simp

/-- A path leads from its first element to each of its elements. -/
theorem reflTransGen_of_mem {a b : α} {rest : List α} (hchain : (a :: rest).IsChain (Leads next))
    (hb : b ∈ a :: rest) : ReflTransGen (Leads next) a b := by
  induction rest generalizing a with
  | nil =>
    obtain rfl := List.mem_singleton.mp hb
    exact .refl
  | cons c rest ih =>
    cases hchain with
    | cons_cons hac hrest =>
      rcases List.mem_cons.mp hb with rfl | hb
      · exact .refl
      · exact .head hac (ih hrest hb)

/-- One more step does not close a circle, as far as its end does not lead to its start. -/
theorem acyclic_of_step {R S : α → α → Prop} {p s : α} (hacyclic : ∀ a, ¬ TransGen R a a)
    (hsp : ¬ ReflTransGen R s p) (hS : ∀ a b, S a b → R a b ∨ a = p ∧ b = s) (a : α) :
    ¬ TransGen S a a := by
  -- a path has the new step at most once
  have hpath : ∀ b c, TransGen S b c → TransGen R b c ∨ ReflTransGen R b p ∧ ReflTransGen R s c := by
    intro b c h
    induction h with
    | single hbc =>
      rcases hS _ _ hbc with hbc | ⟨rfl, rfl⟩
      · exact .inl (.single hbc)
      · exact .inr ⟨.refl, .refl⟩
    | tail _ hcd ih =>
      rcases ih, hS _ _ hcd with ⟨hbc | ⟨hbp, hsc⟩, hcd | ⟨rfl, rfl⟩⟩
      · exact .inl (.tail hbc hcd)
      · exact .inr ⟨hbc.to_reflTransGen, .refl⟩
      · exact .inr ⟨hbp, .tail hsc hcd⟩
      · exact absurd hsc hsp
  intro hcycle
  rcases hpath a a hcycle with hcycle | ⟨hap, hsa⟩
  · exact hacyclic a hcycle
  · exact hsp (hsa.trans hap)

/-- A path of a relation that cannot be made longer: nothing is before its first element or after its
last one. -/
structure WholePath (R : α → α → Prop) (path : List α) : Prop where
  leads : path.IsChain R
  first : ∃ first, path.head? = some first ∧ ∀ a, ¬ R a first
  last : ∃ last, path.getLast? = some last ∧ ∀ b, ¬ R last b

/-- The links go both ways, there are at most as many as `sources`, and no walk returns. -/
structure Linked (next prev : α → Option α) (sources : List α) : Prop where
  prev_iff : ∀ a b, prev b = some a ↔ next a = some b
  mem_sources : ∀ a b, next a = some b → a ∈ sources
  acyclic : ∀ a, ¬ TransGen (Leads next) a a

namespace Linked

variable {sources : List α} {n : Nat} {a b x : α} {path : List α}

theorem leads_prev (h : Linked next prev sources) : Leads prev a b ↔ Leads next b a := h.prev_iff b a

theorem not_leads_to_iff (h : Linked next prev sources) : (∀ a, ¬ Leads next a b) ↔ prev b = none := by
  simp only [← h.leads_prev]
  exact not_leads_iff

theorem reflTransGen_prev (h : Linked next prev sources) :
    ReflTransGen (Leads prev) a b ↔ ReflTransGen (Leads next) b a := by
  rw [← reflTransGen_swap]
  have hswap : Leads prev = Function.swap (Leads next) := by
    funext a b
    exact propext h.leads_prev
  rw [hswap]

/-- The links the other way. -/
theorem symm (h : Linked next prev sources) : Linked prev next (sources.filterMap next) where
  prev_iff a b := (h.prev_iff b a).symm
  mem_sources a b hab := by
    have hba := h.leads_prev.mp hab
    exact List.mem_filterMap.mpr ⟨b, h.mem_sources b a hba, hba⟩
  acyclic a hcycle := by
    apply h.acyclic a
    rw [← transGen_swap]
    exact TransGen.mono (fun _ _ hstep => h.leads_prev.mp hstep) _ _ hcycle

theorem nodup (h : Linked next prev sources) (hpath : path.IsChain (Leads next)) : path.Nodup := by
  have htrans : path.IsChain (TransGen (Leads next)) := hpath.imp fun _ _ => .single
  refine htrans.pairwise.imp ?_
  rintro a _ hcycle rfl
  exact h.acyclic a hcycle

theorem length_le (h : Linked next prev sources) (hpath : path.IsChain (Leads next)) :
    path.length ≤ sources.length + 1 := by
  have hsub : path.dropLast ⊆ sources := by
    intro a ha
    obtain ⟨before, after, hsplit⟩ := List.append_of_mem ha
    have hne : path ≠ [] := by
      rintro rfl
      cases ha
    rw [← List.dropLast_append_getLast hne, hsplit, List.append_assoc] at hpath
    cases hafter : after ++ [path.getLast hne] with
    | nil => simp at hafter
    | cons b rest =>
      rw [List.cons_append, hafter] at hpath
      cases hpath.right_of_append with
      | cons_cons hab _ => exact h.mem_sources a b hab
  have hle := ((h.nodup hpath).sublist (List.dropLast_sublist path)).subperm hsub |>.length_le
  rw [List.length_dropLast] at hle
  omega

/-- A walk that may take as many steps as there are links is not cut off. -/
theorem next_walkEnd (h : Linked next prev sources) (hn : sources.length ≤ n) (a : α) :
    next (walkEnd next (n + 1) a) = none := by
  cases hnext : next (walkEnd next (n + 1) a) with
  | none => rfl
  | some b =>
    have hlen := length_walk hnext
    have hle := h.length_le (isChain_walk next (n + 1) a)
    omega

theorem prev_walkEnd (h : Linked next prev sources) (hn : sources.length ≤ n) (a : α) :
    prev (walkEnd prev (n + 1) a) = none :=
  h.symm.next_walkEnd ((List.length_filterMap_le ..).trans hn) a

/-- The path of an element: back to the first one, and from there to the last one. -/
theorem wholePath (h : Linked next prev sources) (hn : sources.length ≤ n) (x : α) :
    WholePath (Leads next) (walk next (n + 1) (walkEnd prev (n + 1) x)) where
  leads := isChain_walk ..
  first := ⟨_, rfl, h.not_leads_to_iff.mpr (h.prev_walkEnd hn x)⟩
  last := ⟨_, getLast?_walk .., not_leads_iff.mpr (h.next_walkEnd hn _)⟩

theorem mem_wholePath (h : Linked next prev sources) (hn : sources.length ≤ n) (x : α) :
    x ∈ walk next (n + 1) (walkEnd prev (n + 1) x) := by
  refine mem_of_reflTransGen (isChain_walk ..) (getLast?_walk ..) (h.next_walkEnd hn _)
    (List.mem_cons_self ..) ?_
  exact h.reflTransGen_prev.mp (reflTransGen_walkEnd ..)

/-- Only one element without a previous one leads to another one. -/
theorem first_unique (h : Linked next prev sources) (ha : prev a = none) (hb : prev b = none)
    (hax : ReflTransGen (Leads next) a x) (hbx : ReflTransGen (Leads next) b x) : a = b := by
  have hunique : Relator.RightUnique (Leads prev) := fun _ _ _ hb hc => hb.eq hc
  have hstuck : ∀ {a b}, prev a = none → ReflTransGen (Leads prev) a b → a = b := by
    intro a b ha hab
    rcases hab.cases_head with rfl | ⟨c, hac, -⟩
    · rfl
    · exact absurd (hac.symm.trans ha) nofun
  rcases ReflTransGen.total_of_right_unique hunique (h.reflTransGen_prev.mpr hax)
    (h.reflTransGen_prev.mpr hbx) with hab | hba
  · exact hstuck ha hab
  · exact (hstuck hb hba).symm

/-- A whole path through an element is the path of the element. -/
theorem eq_wholePath_iff (h : Linked next prev sources) (hn : sources.length ≤ n) :
    WholePath (Leads next) path ∧ x ∈ path ↔ path = walk next (n + 1) (walkEnd prev (n + 1) x) := by
  constructor
  · rintro ⟨⟨hleads, ⟨first, hfirst, hnone⟩, last, hlast, hend⟩, hx⟩
    obtain ⟨rest, rfl⟩ := List.head?_eq_some_iff.mp hfirst
    have hsame : first = walkEnd prev (n + 1) x :=
      h.first_unique (h.not_leads_to_iff.mp hnone) (h.prev_walkEnd hn x)
        (reflTransGen_of_mem hleads hx)
        (h.reflTransGen_prev.mp (reflTransGen_walkEnd ..))
    have hlen := h.length_le hleads
    rw [List.length_cons] at hlen
    rw [← hsame]
    exact eq_walk hleads hlast (not_leads_iff.mp hend) (by omega)
  · rintro rfl
    exact ⟨h.wholePath hn x, h.mem_wholePath hn x⟩

/-- The elements of a path have the same path. -/
theorem wholePath_eq (h : Linked next prev sources) (hn : sources.length ≤ n)
    (hx : x ∈ walk next (n + 1) (walkEnd prev (n + 1) a)) :
    walk next (n + 1) (walkEnd prev (n + 1) x) = walk next (n + 1) (walkEnd prev (n + 1) a) :=
  ((h.eq_wholePath_iff hn).mp ⟨h.wholePath hn a, hx⟩).symm

section Meets

variable [DecidableEq α] {target : α}

theorem meets_of_transGen {m : Nat} (h : TransGen (Leads next) a target) :
    meets next target m a = true := by
  induction m generalizing a with
  | zero => rfl
  | succ m ih =>
    obtain ⟨b, hab, hb⟩ := TransGen.head'_iff.mp h
    rw [meets, hab, Option.elim_some]
    split
    · rfl
    · next hne =>
      rcases reflTransGen_iff_eq_or_transGen.mp hb with rfl | hb
      · exact absurd rfl hne
      · exact ih hb

theorem transGen_or_length {m : Nat} (h : meets next target m a = true) :
    TransGen (Leads next) a target ∨ (walk next m a).length = m + 1 := by
  induction m generalizing a with
  | zero => exact .inr rfl
  | succ m ih =>
    rw [meets] at h
    cases hnext : next a with
    | none =>
      rw [hnext] at h
      cases h
    | some b =>
      rw [hnext, Option.elim_some] at h
      split at h
      · next heq =>
        subst heq
        exact .inl (.single hnext)
      · rcases ih h with hb | hlen
        · exact .inl (.head hnext hb)
        · refine .inr ?_
          rw [walk, hnext, Option.elim_some, List.length_cons, hlen]

/-- The loop comes to the target or ends by itself. -/
theorem meets_iff (h : Linked next prev sources) (hn : sources.length ≤ n) :
    meets next target (n + 1) a = true ↔ TransGen (Leads next) a target := by
  refine ⟨fun hmeets => ?_, meets_of_transGen⟩
  rcases transGen_or_length hmeets with hpath | hlen
  · exact hpath
  · have hle := h.length_le (isChain_walk next (n + 1) a)
    omega

end Meets

end Linked

end Tally.Lib
