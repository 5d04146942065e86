import Mathlib.Data.List.Basic
import Mathlib.Data.List.Sort
import Mathlib.Order.Defs.LinearOrder

/-!
# Ordered maps

A finite map whose entries are in the order of their keys (`BTreeMap`). The order makes maps with the
same entries equal (`Table.ext_get?`), whatever the order in which they were put in.
-/

namespace Tally.Lib

structure Table (K V : Type) [LinearOrder K] where
  entries : List (K × V)
  sorted : entries.Pairwise fun a b => a.1 < b.1

namespace Table

variable {K V W : Type} [LinearOrder K]

def empty : Table K V := ⟨[], .nil⟩

instance : EmptyCollection (Table K V) := ⟨empty⟩

instance : Inhabited (Table K V) := ⟨empty⟩

instance [DecidableEq V] : DecidableEq (Table K V) := fun a b =>
  decidable_of_iff (a.entries = b.entries)
    ⟨fun h => by cases a; cases b; cases h; rfl, fun h => h ▸ rfl⟩

def keys (t : Table K V) : List K := t.entries.map Prod.fst

def values (t : Table K V) : List V := t.entries.map Prod.snd

def get? (t : Table K V) (k : K) : Option V := (t.entries.find? fun entry => entry.1 = k).map Prod.snd

def insertEntry (k : K) (v : V) : List (K × V) → List (K × V)
  | [] => [(k, v)]
  | (q, w) :: rest =>
    if k < q then (k, v) :: (q, w) :: rest
    else if k = q then (k, v) :: rest
    else (q, w) :: insertEntry k v rest

theorem mem_insertEntry {k : K} {v : V} {entries : List (K × V)} {entry : K × V}
    (h : entries.Pairwise fun a b => a.1 < b.1) :
    entry ∈ insertEntry k v entries ↔ entry = (k, v) ∨ entry ∈ entries ∧ entry.1 ≠ k := by
  induction entries with
  | nil => simp [insertEntry]
  | cons first rest ih =>
    obtain ⟨q, w⟩ := first
    rw [List.pairwise_cons] at h
    rw [insertEntry]
    split
    · next hlt =>
      have hkeys : ∀ other ∈ (q, w) :: rest, other.1 ≠ k := by
        intro other hother
        rcases List.mem_cons.mp hother with rfl | hother
        · exact hlt.ne'
        · exact (hlt.trans (h.1 other hother)).ne'
      rw [List.mem_cons]
      refine or_congr Iff.rfl ⟨fun hmem => ⟨hmem, hkeys entry hmem⟩, fun hmem => hmem.1⟩
    · split
      · next heq =>
        subst heq
        rw [List.mem_cons, List.mem_cons]
        refine or_congr Iff.rfl ⟨fun hmem => ⟨.inr hmem, (h.1 entry hmem).ne'⟩, ?_⟩
        rintro ⟨rfl | hmem, hne⟩
        · exact absurd rfl hne
        · exact hmem
      · next hlt hne =>
        rw [List.mem_cons, ih h.2, List.mem_cons]
        constructor
        · rintro (rfl | rfl | ⟨hmem, hkey⟩)
          · exact .inr ⟨.inl rfl, Ne.symm hne⟩
          · exact .inl rfl
          · exact .inr ⟨.inr hmem, hkey⟩
        · rintro (rfl | ⟨rfl | hmem, hkey⟩)
          · exact .inr (.inl rfl)
          · exact .inl rfl
          · exact .inr (.inr ⟨hmem, hkey⟩)

theorem sorted_insertEntry (k : K) (v : V) {entries : List (K × V)}
    (h : entries.Pairwise fun a b => a.1 < b.1) :
    (insertEntry k v entries).Pairwise fun a b => a.1 < b.1 := by
  induction entries with
  | nil => simp [insertEntry]
  | cons first rest ih =>
    obtain ⟨q, w⟩ := first
    have hsorted := h
    rw [List.pairwise_cons] at h
    rw [insertEntry]
    split
    · next hlt =>
      refine List.pairwise_cons.mpr ⟨?_, hsorted⟩
      intro other hother
      rcases List.mem_cons.mp hother with rfl | hother
      · exact hlt
      · exact hlt.trans (h.1 other hother)
    · split
      · next heq =>
        subst heq
        exact List.pairwise_cons.mpr h
      · next hlt hne =>
        refine List.pairwise_cons.mpr ⟨?_, ih h.2⟩
        intro other hother
        rcases (mem_insertEntry h.2).mp hother with rfl | ⟨hmem, -⟩
        · exact lt_of_le_of_ne (not_lt.mp hlt) (Ne.symm hne)
        · exact h.1 other hmem

def insert (t : Table K V) (k : K) (v : V) : Table K V :=
  ⟨insertEntry k v t.entries, sorted_insertEntry k v t.sorted⟩

def erase (t : Table K V) (k : K) : Table K V :=
  ⟨t.entries.filter fun entry => entry.1 ≠ k, t.sorted.filter _⟩

@[simp] theorem get?_empty (k : K) : (∅ : Table K V).get? k = none := rfl

@[simp] theorem entries_empty : (∅ : Table K V).entries = [] := rfl

theorem find_eq_some_iff {entries : List (K × V)} (h : entries.Pairwise fun a b => a.1 < b.1) {k : K}
    {v : V} : (entries.find? fun entry => entry.1 = k).map Prod.snd = some v ↔ (k, v) ∈ entries := by
  induction entries with
  | nil => simp
  | cons first rest ih =>
    obtain ⟨q, w⟩ := first
    rw [List.pairwise_cons] at h
    rw [List.find?_cons, List.mem_cons]
    by_cases hq : q = k
    · subst hq
      have hrest : (q, v) ∉ rest := fun hmem => (h.1 _ hmem).ne rfl
      simp [hrest, eq_comm]
    · simp [hq, ih h.2, Ne.symm hq]

theorem mem_entries_iff (t : Table K V) {k : K} {v : V} : (k, v) ∈ t.entries ↔ t.get? k = some v :=
  (find_eq_some_iff t.sorted).symm

theorem mem_keys_iff (t : Table K V) {k : K} : k ∈ t.keys ↔ ∃ v, t.get? k = some v := by
  simp [keys, ← mem_entries_iff]

theorem mem_values_iff (t : Table K V) {v : V} : v ∈ t.values ↔ ∃ k, t.get? k = some v := by
  simp [values, ← mem_entries_iff]

theorem get?_insert (t : Table K V) (k q : K) (v : V) :
    (t.insert k v).get? q = if q = k then some v else t.get? q := by
  apply Option.ext
  intro w
  rw [← mem_entries_iff, insert, mem_insertEntry t.sorted]
  split
  · next hq =>
    subst hq
    simp [eq_comm]
  · next hq => simp [hq, mem_entries_iff]

@[simp] theorem get?_insert_self (t : Table K V) (k : K) (v : V) : (t.insert k v).get? k = some v := by
  rw [get?_insert, if_pos rfl]

theorem get?_insert_ne (t : Table K V) {k q : K} (v : V) (h : q ≠ k) :
    (t.insert k v).get? q = t.get? q := by
  rw [get?_insert, if_neg h]

theorem get?_erase (t : Table K V) (k q : K) :
    (t.erase k).get? q = if q = k then none else t.get? q := by
  apply Option.ext
  intro w
  rw [← mem_entries_iff, erase, List.mem_filter, mem_entries_iff]
  split
  · next hq => simp [hq]
  · next hq => simp [hq]

theorem eq_of_entries {a b : Table K V} (h : a.entries = b.entries) : a = b := by
  cases a
  cases b
  cases h
  rfl

/-- Two ordered lists with the same entries are the same. -/
theorem entries_ext {a b : List (K × V)} (ha : a.Pairwise fun a b => a.1 < b.1)
    (hb : b.Pairwise fun a b => a.1 < b.1) (h : ∀ entry, entry ∈ a ↔ entry ∈ b) : a = b := by
  induction a generalizing b with
  | nil =>
    cases b with
    | nil => rfl
    | cons first rest => exact absurd ((h first).mpr (List.mem_cons_self ..)) (List.not_mem_nil)
  | cons first rest ih =>
    cases b with
    | nil => exact absurd ((h first).mp (List.mem_cons_self ..)) (List.not_mem_nil)
    | cons first' rest' =>
      rw [List.pairwise_cons] at ha hb
      have hfirst : first = first' := by
        rcases List.mem_cons.mp ((h first).mp (List.mem_cons_self ..)) with heq | hmem
        · exact heq
        · rcases List.mem_cons.mp ((h first').mpr (List.mem_cons_self ..)) with heq | hmem'
          · exact heq.symm
          · exact absurd (hb.1 _ hmem) (ha.1 _ hmem').asymm
      subst hfirst
      congr 1
      apply ih ha.2 hb.2
      intro entry
      have hentry := h entry
      simp only [List.mem_cons] at hentry
      constructor
      · intro hmem
        rcases hentry.mp (.inr hmem) with rfl | hmem'
        · exact absurd (ha.1 _ hmem) (lt_irrefl _)
        · exact hmem'
      · intro hmem
        rcases hentry.mpr (.inr hmem) with rfl | hmem'
        · exact absurd (hb.1 _ hmem) (lt_irrefl _)
        · exact hmem'

theorem ext_get? {a b : Table K V} (h : ∀ k, a.get? k = b.get? k) : a = b := by
  apply eq_of_entries
  apply entries_ext a.sorted b.sorted
  rintro ⟨k, v⟩
  rw [mem_entries_iff, mem_entries_iff, h]

theorem nodup_keys (t : Table K V) : t.keys.Nodup := by
  rw [keys, List.nodup_iff_pairwise_ne, List.pairwise_map]
  exact t.sorted.imp fun h => h.ne

theorem nodup_entries (t : Table K V) : t.entries.Nodup := t.nodup_keys.of_map

theorem erase_of_get?_eq_none (t : Table K V) {k : K} (h : t.get? k = none) : t.erase k = t := by
  apply ext_get?
  intro q
  rw [get?_erase]
  split
  · next hq => rw [hq, h]
  · rfl

theorem entries_insert_perm (t : Table K V) (k : K) (v : V) :
    (t.insert k v).entries.Perm ((k, v) :: (t.erase k).entries) := by
  rw [List.perm_ext_iff_of_nodup (nodup_entries _)]
  · intro entry
    rw [insert, mem_insertEntry t.sorted, List.mem_cons, erase, List.mem_filter]
    simp
  · rw [List.nodup_cons]
    refine ⟨?_, nodup_entries _⟩
    rw [erase, List.mem_filter]
    simp

theorem entries_perm_of_get? (t : Table K V) {k : K} {v : V} (h : t.get? k = some v) :
    t.entries.Perm ((k, v) :: (t.erase k).entries) := by
  have hself : t.insert k v = t := by
    apply ext_get?
    intro q
    rw [get?_insert]
    split
    · next hq => rw [hq, h]
    · rfl
  have hperm := t.entries_insert_perm k v
  rwa [hself] at hperm

theorem get?_foldl_erase (t : Table K V) (ks : List K) (k : K) :
    (ks.foldl erase t).get? k = if k ∈ ks then none else t.get? k := by
  induction ks generalizing t with
  | nil => simp
  | cons q ks ih =>
    rw [List.foldl_cons, ih, get?_erase]
    by_cases hk : k ∈ ks
    · simp [hk]
    · by_cases hq : k = q <;> simp [hk, hq]

/-- The entries put into a map one after the other. -/
def extend (t : Table K V) (entries : List (K × V)) : Table K V :=
  entries.foldl (fun t entry => t.insert entry.1 entry.2) t

/-- Of the entries with a key the last one counts. -/
theorem get?_extend (t : Table K V) (entries : List (K × V)) (k : K) :
    (t.extend entries).get? k =
      ((entries.filter fun entry => entry.1 = k).getLast?.map Prod.snd).or (t.get? k) := by
  induction entries generalizing t with
  | nil => rfl
  | cons entry rest ih =>
    rw [extend, List.foldl_cons, ← extend, ih, get?_insert, List.filter_cons]
    by_cases hk : entry.1 = k
    · rw [if_pos hk.symm, if_pos (decide_eq_true hk), List.getLast?_cons]
      cases (rest.filter fun entry => entry.1 = k).getLast? <;> rfl
    · rw [if_neg (Ne.symm hk), if_neg (by rw [decide_eq_true_eq]; exact hk)]

theorem get?_extend_of_not_mem {entries : List (K × V)} {k : K} (h : k ∉ entries.map Prod.fst)
    (t : Table K V) : (t.extend entries).get? k = t.get? k := by
  induction entries generalizing t with
  | nil => rfl
  | cons entry rest ih =>
    rw [List.map_cons, List.mem_cons, not_or] at h
    exact (ih h.2 _).trans (get?_insert_ne _ _ h.1)

theorem get?_extend_of_mem {entries : List (K × V)} {k : K} {v : V}
    (hnodup : (entries.map Prod.fst).Nodup) (h : (k, v) ∈ entries) (t : Table K V) :
    (t.extend entries).get? k = some v := by
  induction entries generalizing t with
  | nil => cases h
  | cons entry rest ih =>
    rw [List.map_cons, List.nodup_cons] at hnodup
    rcases List.mem_cons.mp h with rfl | h
    · exact (get?_extend_of_not_mem hnodup.1 _).trans (get?_insert_self ..)
    · exact ih hnodup.2 h _

theorem extend_entries (t : Table K V) : (∅ : Table K V).extend t.entries = t := by
  apply ext_get?
  intro k
  cases hk : t.get? k with
  | some v => exact get?_extend_of_mem t.nodup_keys (t.mem_entries_iff.mpr hk) _
  | none =>
    apply get?_extend_of_not_mem
    intro hmem
    obtain ⟨v, hv⟩ := t.mem_keys_iff.mp hmem
    rw [hk] at hv
    cases hv

end Table

end Tally.Lib
