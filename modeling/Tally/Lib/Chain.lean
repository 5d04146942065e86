import Mathlib.Data.List.Range
import Mathlib.Data.List.Basic

/-!
# Hash chains

A chain of records: each one carries its number, the hash of the one before it and its own. A head is
the number and the hash that the next record has to follow. Chains that end in the same hash are the
same, as far as the hash of a record determines it (`Chained.eq_of_hash_eq`).
-/

namespace Tally.Lib

structure Head (Hash : Type) where
  seq : Nat
  hash : Hash
  deriving DecidableEq

/-- The fields of a record that make it a link of a chain. -/
structure Links (Record Hash : Type) where
  seq : Record → Nat
  prev : Record → Hash
  hash : Record → Hash

variable {Record Hash : Type} (links : Links Record Hash)

namespace Links

def headOf (record : Record) : Head Hash := ⟨links.seq record, links.hash record⟩

def Follows (head : Head Hash) (record : Record) : Prop :=
  links.seq record = head.seq + 1 ∧ links.prev record = head.hash

def Chained : Head Hash → List Record → Prop
  | _, [] => True
  | head, record :: rest => links.Follows head record ∧ Chained (links.headOf record) rest

/-- The head after the records. -/
def lastHead (head : Head Hash) (records : List Record) : Head Hash :=
  records.foldl (fun _ record => links.headOf record) head

@[simp] theorem lastHead_nil (head : Head Hash) : links.lastHead head [] = head := rfl

@[simp] theorem lastHead_cons (head : Head Hash) (record : Record) (rest : List Record) :
    links.lastHead head (record :: rest) = links.lastHead (links.headOf record) rest := rfl

theorem lastHead_append (head : Head Hash) (a b : List Record) :
    links.lastHead head (a ++ b) = links.lastHead (links.lastHead head a) b :=
  List.foldl_append

theorem lastHead_concat (head : Head Hash) (records : List Record) (record : Record) :
    links.lastHead head (records ++ [record]) = links.headOf record := by
  rw [lastHead_append]
  rfl

/-- The links of what carries a record. -/
def comap {Carrier : Type} (f : Carrier → Record) : Links Carrier Hash :=
  ⟨links.seq ∘ f, links.prev ∘ f, links.hash ∘ f⟩

variable {links}

theorem chained_map {Carrier : Type} {f : Carrier → Record} {head : Head Hash}
    {carriers : List Carrier} :
    links.Chained head (carriers.map f) ↔ (links.comap f).Chained head carriers := by
  induction carriers generalizing head with
  | nil => exact Iff.rfl
  | cons carrier rest ih => exact and_congr Iff.rfl ih

theorem lastHead_map {Carrier : Type} {f : Carrier → Record} {head : Head Hash}
    {carriers : List Carrier} :
    links.lastHead head (carriers.map f) = (links.comap f).lastHead head carriers := by
  rw [lastHead, List.foldl_map]
  rfl

theorem lastHead_eq_getLast? {head : Head Hash} {records : List Record} :
    links.lastHead head records = records.getLast?.elim head links.headOf := by
  rcases List.eq_nil_or_concat records with rfl | ⟨rest, record, rfl⟩
  · rfl
  · rw [List.concat_eq_append, lastHead_concat, List.getLast?_concat]
    rfl

theorem chained_append {head : Head Hash} {a b : List Record} :
    links.Chained head (a ++ b) ↔
      links.Chained head a ∧ links.Chained (links.lastHead head a) b := by
  induction a generalizing head with
  | nil => simp [Chained]
  | cons record rest ih => rw [List.cons_append, Chained, Chained, ih, lastHead_cons, and_assoc]

theorem chained_concat {head : Head Hash} {records : List Record} {record : Record} :
    links.Chained head (records ++ [record]) ↔
      links.Chained head records ∧ links.Follows (links.lastHead head records) record := by
  rw [chained_append]
  simp [Chained]

/-- The links alone, without the numbers. -/
def Linked (links : Links Record Hash) : Hash → List Record → Prop
  | _, [] => True
  | hash, record :: rest => links.prev record = hash ∧ links.Linked (links.hash record) rest

theorem chained_iff {head : Head Hash} {records : List Record} :
    links.Chained head records ↔ links.Linked head.hash records ∧
      records.map links.seq = List.range' (head.seq + 1) records.length := by
  induction records generalizing head with
  | nil => simp [Chained, Linked]
  | cons record rest ih =>
    rw [Chained, Linked, ih, Follows, List.map_cons, List.length_cons, List.range'_succ,
      List.cons.injEq]
    constructor
    · rintro ⟨⟨hseq, hprev⟩, hlinked, hseqs⟩
      exact ⟨⟨hprev, hlinked⟩, hseq, by rw [hseqs]; exact congrArg (List.range' · _) (congrArg (· + 1) hseq)⟩
    · rintro ⟨⟨hprev, hlinked⟩, hseq, hseqs⟩
      exact ⟨⟨hseq, hprev⟩, hlinked, by rw [hseqs]; exact congrArg (List.range' · _) (congrArg (· + 1) hseq.symm)⟩

/-- The records are numbered without gaps. -/
theorem Chained.map_seq {head : Head Hash} {records : List Record} (h : links.Chained head records) :
    records.map links.seq = List.range' (head.seq + 1) records.length :=
  (chained_iff.mp h).2

theorem Chained.lastHead_seq {head : Head Hash} {records : List Record}
    (h : links.Chained head records) :
    (links.lastHead head records).seq = head.seq + records.length := by
  induction records generalizing head with
  | nil => rfl
  | cons record rest ih =>
    obtain ⟨hfollows, hrest⟩ := h
    have hseq : (links.headOf record).seq = head.seq + 1 := hfollows.1
    rw [lastHead_cons, ih hrest, hseq, List.length_cons]
    omega

/-- Chains from one head that end in the same hash are the same, where the hash of a record
determines the record. -/
theorem Chained.eq_of_hash_eq {head : Head Hash} {a b : List Record} (ha : links.Chained head a)
    (hb : links.Chained head b)
    (hinj : ∀ x ∈ a, ∀ y ∈ b, links.hash x = links.hash y → x = y)
    (hna : a ≠ []) (hnb : b ≠ [])
    (h : (links.lastHead head a).hash = (links.lastHead head b).hash) : a = b := by
  induction a using List.reverseRecOn generalizing b with
  | nil => exact absurd rfl hna
  | append_singleton as x ih =>
    obtain ⟨bs, y, rfl⟩ : ∃ bs y, b = bs ++ [y] :=
      ⟨b.dropLast, b.getLast hnb, (List.dropLast_append_getLast hnb).symm⟩
    rw [lastHead_concat, lastHead_concat] at h
    obtain rfl : x = y := hinj x (by simp) y (by simp) h
    obtain ⟨has, hx⟩ := chained_concat.mp ha
    obtain ⟨hbs, hy⟩ := chained_concat.mp hb
    have hlength : as.length = bs.length := by
      have hseq := hx.1.symm.trans hy.1
      rw [has.lastHead_seq, hbs.lastHead_seq] at hseq
      omega
    by_cases hnil : as = []
    · subst hnil
      rw [List.eq_nil_of_length_eq_zero hlength.symm]
    · have hnil' : bs ≠ [] := fun hbs => hnil (List.eq_nil_of_length_eq_zero (by rw [hlength, hbs]; rfl))
      rw [ih has hbs (fun x hx y hy => hinj x (List.mem_append_left _ hx) y
        (List.mem_append_left _ hy)) hnil hnil' (hx.2.symm.trans hy.2)]

end Links

end Tally.Lib
