import Mathlib.Data.List.Nodup
import Mathlib.Data.List.Lex
import Mathlib.Data.Finset.Basic

/-!
# Finite maps with distinct keys

`Dict K V` is an association list that carries the proof that no key occurs twice. It stands for
the hash maps and the ordered maps of the programs: nothing proved here depends on the order of the
entries, and every lookup after an update is decided by `get?_insert`, `get?_erase` and
`get?_mapVals`.
-/

namespace Tally

/-- A finite map: entries with pairwise distinct keys. -/
structure Dict (K V : Type) where
  entries : List (K × V)
  nodup : (entries.map Prod.fst).Nodup

namespace Dict

variable {K V W : Type} [DecidableEq K]

def empty : Dict K V := ⟨[], List.nodup_nil⟩

instance : EmptyCollection (Dict K V) := ⟨empty⟩

instance : Inhabited (Dict K V) := ⟨empty⟩

def keys (d : Dict K V) : List K := d.entries.map Prod.fst

def values (d : Dict K V) : List V := d.entries.map Prod.snd

def get? (d : Dict K V) (k : K) : Option V := d.entries.lookup k

omit [DecidableEq K] in
private theorem nodup_filter {l : List (K × V)} (h : (l.map Prod.fst).Nodup) (p : K × V → Bool) :
    ((l.filter p).map Prod.fst).Nodup :=
  h.sublist (List.filter_sublist.map _)

def erase (d : Dict K V) (k : K) : Dict K V where
  entries := d.entries.filter (·.1 ≠ k)
  nodup := nodup_filter d.nodup _

/-- The new entry comes first and replaces an older one for its key. -/
def insert (d : Dict K V) (k : K) (v : V) : Dict K V where
  entries := (k, v) :: (d.erase k).entries
  nodup := by
    refine List.nodup_cons.mpr ⟨?_, (d.erase k).nodup⟩
    simp [erase]

/-- Rewrite every value. -/
def mapVals (d : Dict K V) (f : K → V → W) : Dict K W where
  entries := d.entries.map fun p => (p.1, f p.1 p.2)
  nodup := by simpa [List.map_map, Function.comp_def] using d.nodup

/-- Keep the entries that pass. -/
def retain (d : Dict K V) (keep : K → V → Bool) : Dict K V where
  entries := d.entries.filter fun p => keep p.1 p.2
  nodup := nodup_filter d.nodup _

@[simp] theorem get?_empty (k : K) : (∅ : Dict K V).get? k = none := rfl

omit [DecidableEq K] in
@[simp] theorem entries_empty : (∅ : Dict K V).entries = [] := rfl

private theorem lookup_filter_ne {l : List (K × V)} {k q : K} (h : q ≠ k) :
    (l.filter (·.1 ≠ k)).lookup q = l.lookup q := by
  induction l with
  | nil => rfl
  | cons p l ih =>
    obtain ⟨a, b⟩ := p
    by_cases ha : a = k
    · have hq : (q == a) = false := by simpa [ha] using h
      have hf : ((a, b) :: l).filter (·.1 ≠ k) = l.filter (·.1 ≠ k) := by simp [ha]
      rw [hf, List.lookup_cons, hq]
      exact ih
    · simp only [List.filter_cons, ha, ne_eq, not_false_eq_true, decide_true, if_true,
        List.lookup_cons]
      cases q == a
      · exact ih
      · rfl

private theorem lookup_filter_self {l : List (K × V)} {k : K} :
    (l.filter (·.1 ≠ k)).lookup k = none := by
  rw [List.lookup_eq_none_iff]
  rintro ⟨a, b⟩ h
  simp only [List.mem_filter, decide_eq_true_eq] at h
  simpa using fun hk => h.2 hk.symm

theorem get?_erase (d : Dict K V) (k q : K) :
    (d.erase k).get? q = if q = k then none else d.get? q := by
  split
  · next h => rw [h]; exact lookup_filter_self
  · next h => exact lookup_filter_ne h

@[simp] theorem get?_erase_self (d : Dict K V) (k : K) : (d.erase k).get? k = none := by
  simp [get?_erase]

theorem get?_erase_ne (d : Dict K V) {k q : K} (h : q ≠ k) : (d.erase k).get? q = d.get? q := by
  simp [get?_erase, h]

theorem get?_insert (d : Dict K V) (k q : K) (v : V) :
    (d.insert k v).get? q = if q = k then some v else d.get? q := by
  show List.lookup q ((k, v) :: (d.erase k).entries) = _
  rw [List.lookup_cons]
  split
  · next h => simp_all
  · next h =>
    have hq : q ≠ k := by simpa using h
    rw [if_neg hq]
    exact get?_erase_ne d hq

@[simp] theorem get?_insert_self (d : Dict K V) (k : K) (v : V) :
    (d.insert k v).get? k = some v := by
  simp [get?_insert]

theorem get?_insert_ne (d : Dict K V) {k q : K} (v : V) (h : q ≠ k) :
    (d.insert k v).get? q = d.get? q := by
  simp [get?_insert, h]

@[simp] theorem get?_mapVals (d : Dict K V) (f : K → V → W) (k : K) :
    (d.mapVals f).get? k = (d.get? k).map (f k) := by
  show List.lookup k (d.entries.map _) = (List.lookup k d.entries).map (f k)
  induction d.entries with
  | nil => rfl
  | cons p l ih =>
    obtain ⟨a, b⟩ := p
    simp only [List.map_cons, List.lookup_cons]
    split
    · next h =>
      obtain rfl : k = a := by simpa using h
      rfl
    · exact ih

theorem mem_entries_iff (d : Dict K V) {k : K} {v : V} : (k, v) ∈ d.entries ↔ d.get? k = some v := by
  obtain ⟨l, hl⟩ := d
  show _ ↔ List.lookup k l = some v
  induction l with
  | nil => simp
  | cons p l ih =>
    obtain ⟨a, b⟩ := p
    simp only [List.map_cons, List.nodup_cons] at hl
    rw [List.mem_cons, List.lookup_cons, ih hl.2]
    split
    · next h =>
      obtain rfl : k = a := by simpa using h
      have hnone : ¬ List.lookup k l = some v := fun hv =>
        hl.1 (List.mem_map.mpr ⟨(k, v), (ih hl.2).mpr hv, rfl⟩)
      simp [hnone, eq_comm]
    · next h =>
      have : k ≠ a := by simpa using h
      simp [this]

theorem get?_retain_eq_some (d : Dict K V) {keep : K → V → Bool} {k : K} {v : V} :
    (d.retain keep).get? k = some v ↔ d.get? k = some v ∧ keep k v = true := by
  rw [← mem_entries_iff, ← mem_entries_iff, retain, List.mem_filter]

omit [DecidableEq K] in
theorem mapVals_mapVals {X : Type} (d : Dict K V) (f : K → V → W) (g : K → W → X) :
    (d.mapVals f).mapVals g = d.mapVals fun k v => g k (f k v) := by
  simp only [mapVals, List.map_map, Function.comp_def]

theorem mapVals_congr {d : Dict K V} {f g : K → V → W} (h : ∀ k v, d.get? k = some v → f k v = g k v) :
    d.mapVals f = d.mapVals g := by
  simp only [mapVals, mk.injEq]
  refine List.map_congr_left fun entry hentry => ?_
  rw [h entry.1 entry.2 (d.mem_entries_iff.mp hentry)]

theorem mem_keys_iff (d : Dict K V) {k : K} : k ∈ d.keys ↔ ∃ v, d.get? k = some v := by
  simp only [keys, List.mem_map, Prod.exists, mem_entries_iff, exists_and_right, exists_eq_right]

theorem mem_values_iff (d : Dict K V) {v : V} : v ∈ d.values ↔ ∃ k, d.get? k = some v := by
  simp only [values, List.mem_map, Prod.exists, mem_entries_iff, exists_eq_right]

omit [DecidableEq K] in
theorem nodup_keys (d : Dict K V) : d.keys.Nodup := d.nodup

omit [DecidableEq K] in
@[simp] theorem keys_mapVals (d : Dict K V) (f : K → V → W) : (d.mapVals f).keys = d.keys := by
  simp [keys, mapVals]

@[simp] theorem keys_insert (d : Dict K V) (k : K) (v : V) :
    (d.insert k v).keys = k :: (d.erase k).keys := rfl

theorem erase_eq_self (d : Dict K V) {k : K} (h : d.get? k = none) : d.erase k = d := by
  obtain ⟨l, hl⟩ := d
  have hne : ∀ p ∈ l, p.1 ≠ k := by
    rintro ⟨a, b⟩ hp rfl
    rw [(mem_entries_iff ⟨l, hl⟩).mp hp] at h
    cases h
  simp only [erase, Dict.mk.injEq, List.filter_eq_self]
  simpa using hne

theorem keys_perm_cons_erase (d : Dict K V) {k : K} {v : V} (h : d.get? k = some v) :
    d.keys.Perm (k :: (d.erase k).keys) := by
  have hnot : k ∉ (d.erase k).keys := fun hk => by
    obtain ⟨v', hv'⟩ := (mem_keys_iff _).mp hk
    rw [get?_erase_self] at hv'
    cases hv'
  refine (List.perm_ext_iff_of_nodup d.nodup (List.nodup_cons.mpr ⟨hnot, (d.erase k).nodup⟩)).mpr ?_
  intro q
  change q ∈ d.keys ↔ _
  rw [List.mem_cons, mem_keys_iff, mem_keys_iff]
  by_cases hq : q = k
  · subst hq
    exact ⟨fun _ => .inl rfl, fun _ => ⟨v, h⟩⟩
  · simp [hq, get?_erase_ne d hq]

end Dict

end Tally
