import Mathlib.Logic.Function.Basic

/-!
# Names, files and locks

Files under names, as a file system keeps them: a name leads to a file, a lock is on a file and not on
its name, and a file that has lost its name can still be written and locked by those who opened it.
-/

namespace Tally.Lib

/-- The files, by number. A name leads to a file that was created. -/
structure Inodes (Name Owner Content : Type) where
  named : Name → Option Nat
  /-- The number of the next file. -/
  next : Nat
  content : Nat → Content
  lock : Nat → Option Owner
  named_lt : ∀ name file, named name = some file → file < next

namespace Inodes

variable {Name Owner Content : Type} [DecidableEq Name] (inodes : Inodes Name Owner Content)

/-- A new file under a name. -/
def create (name : Name) (content : Content) : Inodes Name Owner Content where
  named := Function.update inodes.named name (some inodes.next)
  next := inodes.next + 1
  content := Function.update inodes.content inodes.next content
  lock := Function.update inodes.lock inodes.next none
  named_lt other file h := by
    rcases eq_or_ne other name with rfl | hne
    · rw [Function.update_self, Option.some.injEq] at h
      omega
    · rw [Function.update_of_ne hne] at h
      have := inodes.named_lt other file h
      omega

/-- `O_CREAT`: the file under a name, which is created if there is none. -/
def openCreate (name : Name) (content : Content) : Nat × Inodes Name Owner Content :=
  match inodes.named name with
  | some file => (file, inodes)
  | none => (inodes.next, inodes.create name content)

/-- The name is taken away; the file stays. -/
def unlink (name : Name) : Inodes Name Owner Content :=
  { inodes with
    named := Function.update inodes.named name none
    named_lt := by
      intro other file h
      rcases eq_or_ne other name with rfl | hne
      · rw [Function.update_self] at h
        cases h
      · rw [Function.update_of_ne hne] at h
        exact inodes.named_lt other file h }

/-- The file under one name gets another one, in the place of the file there. -/
def rename (source target : Name) : Inodes Name Owner Content :=
  { inodes with
    named := Function.update (Function.update inodes.named target (inodes.named source)) source none
    named_lt := by
      intro other file h
      rcases eq_or_ne other source with rfl | hne
      · rw [Function.update_self] at h
        cases h
      rw [Function.update_of_ne hne] at h
      rcases eq_or_ne other target with rfl | hne
      · rw [Function.update_self] at h
        exact inodes.named_lt source file h
      · rw [Function.update_of_ne hne] at h
        exact inodes.named_lt other file h }

def write (file : Nat) (content : Content) : Inodes Name Owner Content :=
  { inodes with content := Function.update inodes.content file content }

def setLock (file : Nat) (owner : Option Owner) : Inodes Name Owner Content :=
  { inodes with lock := Function.update inodes.lock file owner }

section

variable {inodes} {name other : Name} {file : Nat}

theorem create_named_self (name : Name) (content : Content) :
    (inodes.create name content).named name = some inodes.next := Function.update_self ..

theorem create_named_of_ne (content : Content) (h : other ≠ name) :
    (inodes.create name content).named other = inodes.named other := Function.update_of_ne h ..

theorem create_content_self (name : Name) (content : Content) :
    (inodes.create name content).content inodes.next = content := Function.update_self ..

theorem openCreate_named (name : Name) (content : Content) :
    (inodes.openCreate name content).2.named name = some (inodes.openCreate name content).1 := by
  unfold openCreate
  split
  · assumption
  · exact Function.update_self ..

/-- An open leaves a name that leads to a file as it is. -/
theorem openCreate_named_of_some (name : Name) (content : Content) (h : inodes.named other = some file) :
    (inodes.openCreate name content).2.named other = some file := by
  unfold openCreate
  split
  · exact h
  · next hnone =>
    have hne : other ≠ name := by
      rintro rfl
      rw [hnone] at h
      cases h
    exact (Function.update_of_ne hne ..).trans h

theorem openCreate_eq_of_some (content : Content) (h : inodes.named name = some file) :
    inodes.openCreate name content = (file, inodes) := by
  rw [openCreate, h]

theorem openCreate_content (name : Name) (content : Content) (h : file < inodes.next) :
    (inodes.openCreate name content).2.content file = inodes.content file := by
  unfold openCreate
  split
  · rfl
  · exact Function.update_of_ne (by omega) ..

theorem openCreate_lock (name : Name) (content : Content) (h : file < inodes.next) :
    (inodes.openCreate name content).2.lock file = inodes.lock file := by
  unfold openCreate
  split
  · rfl
  · exact Function.update_of_ne (by omega) ..

theorem rename_named_source (source target : Name) :
    (inodes.rename source target).named source = none := Function.update_self ..

theorem rename_named_target {source target : Name} (h : target ≠ source) :
    (inodes.rename source target).named target = inodes.named source :=
  (Function.update_of_ne h ..).trans (Function.update_self ..)

/-- A file that has another name is not the one that is opened, if no file has two names. -/
theorem ne_openCreate (name : Name) (content : Content) (h : inodes.named other = some file)
    (hapart : ∀ file, inodes.named name = some file → inodes.named other ≠ some file) :
    file ≠ (inodes.openCreate name content).1 := by
  unfold openCreate
  split
  · next opened hopened =>
    rintro rfl
    exact hapart _ hopened h
  · exact Nat.ne_of_lt (inodes.named_lt other file h)

theorem le_openCreate_next (name : Name) (content : Content) :
    inodes.next ≤ (inodes.openCreate name content).2.next := by
  unfold openCreate
  split
  · exact Nat.le_refl _
  · exact Nat.le_succ _

end

end Inodes

end Tally.Lib
