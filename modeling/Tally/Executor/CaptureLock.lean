import Tally.Lib.Inodes

/-!
# The lock of a capture

Callers of `lock_capture_within` and a retention sweep that prunes lock files (`captures.rs`,
`retention.rs`), step by step. The lock is on the file and the callers agree on its name only, so a
caller looks at the name again when it has the lock. No two callers hold it (`capture_lock_exclusive`):
the name of a lock that is held stays, since the sweep takes the lock before it removes the name.
-/

namespace Tally.Executor

open Tally.Lib

/-! ## Callers and the sweep -/

/-- Where a call of `lock_capture_within` is. -/
inductive Locker
  /-- Before a round of its loop, or outside of it. -/
  | idle
  | opened (file : Nat)
  /-- The file is private. -/
  | inspected (file : Nat)
  | locked (file : Nat)
  /-- The file under the lock has a name. -/
  | linked (file : Nat)
  /-- The call has returned the file. -/
  | holding (file : Nat)
  deriving DecidableEq

/-- The file that a call has the lock of. -/
def Locker.owned : Locker → Option Nat
  | idle | opened _ | inspected _ => none
  | locked file | linked file | holding file => some file

/-- Where the sweep is with the lock file. -/
inductive Pruner
  | idle
  /-- The file is there, and old enough. -/
  | examined
  | opened (file : Nat)
  | locked (file : Nat)
  | removed (file : Nat)
  deriving DecidableEq

def Pruner.owned : Pruner → Option Nat
  | idle | examined | opened _ => none
  | locked file | removed file => some file

inductive LockOwner (Process : Type)
  | locker (process : Process)
  | sweep
  deriving DecidableEq

/-- The lock file of an identity, the calls and the sweep. -/
structure CaptureWorld (Process : Type) where
  inodes : Inodes Unit (LockOwner Process) Unit
  lockers : Process → Locker
  pruner : Pruner

inductive CaptureEvent (Process : Type)
  /-- `OpenOptions::open`. -/
  | openFile (process : Process)
  /-- `file.metadata()`. -/
  | inspect (process : Process)
  /-- `FileExt::try_lock_exclusive`. -/
  | tryLock (process : Process)
  /-- `file.metadata()` in `capture_lock_still_named`. -/
  | stat (process : Process)
  /-- `symlink_metadata(path)` in `capture_lock_still_named`. -/
  | lstat (process : Process)
  /-- The file is closed: the call gives up, returns an error or crashes, or its result is dropped. -/
  | close (process : Process)
  | sweepExamine
  | sweepOpen
  | sweepTryLock
  | sweepRemove
  /-- The sweep closes the file: it goes on to the next one, fails or crashes. -/
  | sweepClose

namespace CaptureWorld

variable {Process : Type}

section

variable [DecidableEq Process]

def setLocker (world : CaptureWorld Process) (process : Process) (locker : Locker) :
    CaptureWorld Process :=
  { world with lockers := Function.update world.lockers process locker }

/-- A closed file loses the lock that was taken on it. -/
def release (inodes : Inodes Unit (LockOwner Process) Unit) (owned : Option Nat) :
    Inodes Unit (LockOwner Process) Unit :=
  match owned with
  | none => inodes
  | some file => inodes.setLock file none

def close (world : CaptureWorld Process) (process : Process) : CaptureWorld Process :=
  { world.setLocker process .idle with inodes := release world.inodes (world.lockers process).owned }

def sweepClose (world : CaptureWorld Process) : CaptureWorld Process :=
  { world with inodes := release world.inodes world.pruner.owned, pruner := .idle }

/-- A step of one of the parties. One that is not there to be taken does nothing. -/
def step (world : CaptureWorld Process) : CaptureEvent Process → CaptureWorld Process
  | .openFile process =>
    match world.lockers process with
    | .idle =>
      let (file, inodes) := world.inodes.openCreate () ()
      { world with inodes }.setLocker process (.opened file)
    | _ => world
  | .inspect process =>
    match world.lockers process with
    | .opened file =>
      if world.inodes.named () = some file then world.setLocker process (.inspected file)
      else world.close process
    | _ => world
  | .tryLock process =>
    match world.lockers process with
    | .inspected file =>
      if world.inodes.lock file = none then
        { world with inodes := world.inodes.setLock file (some (.locker process)) }.setLocker process
          (.locked file)
      else world.close process
    | _ => world
  | .stat process =>
    match world.lockers process with
    | .locked file =>
      if world.inodes.named () = some file then world.setLocker process (.linked file)
      else world.close process
    | _ => world
  | .lstat process =>
    match world.lockers process with
    | .linked file =>
      if world.inodes.named () = some file then world.setLocker process (.holding file)
      else world.close process
    | _ => world
  | .close process => world.close process
  | .sweepExamine =>
    match world.pruner with
    | .idle => if (world.inodes.named ()).isSome then { world with pruner := .examined } else world
    | _ => world
  | .sweepOpen =>
    match world.pruner, world.inodes.named () with
    | .examined, some file => { world with pruner := .opened file }
    | .examined, none => world.sweepClose
    | _, _ => world
  | .sweepTryLock =>
    match world.pruner with
    | .opened file =>
      if world.inodes.lock file = none then
        { world with inodes := world.inodes.setLock file (some .sweep), pruner := .locked file }
      else world.sweepClose
    | _ => world
  | .sweepRemove =>
    match world.pruner with
    | .locked file => { world with inodes := world.inodes.unlink (), pruner := .removed file }
    | _ => world
  | .sweepClose => world.sweepClose

/-- Nobody has opened the file yet; it may be there or not. -/
structure Quiet (world : CaptureWorld Process) : Prop where
  lockers : ∀ process, world.lockers process = .idle
  pruner : world.pruner = .idle

def run (world : CaptureWorld Process) (events : List (CaptureEvent Process)) :
    CaptureWorld Process :=
  events.foldl step world

end

/-! ## The invariant -/

/-- What a call that is there knows: the lock is its own, and a file that was returned has the name. -/
def LockerOk (inodes : Inodes Unit (LockOwner Process) Unit) (process : Process) : Locker → Prop
  | .idle => True
  | .opened file | .inspected file => file < inodes.next
  | .locked file | .linked file => file < inodes.next ∧ inodes.lock file = some (.locker process)
  | .holding file => file < inodes.next ∧ inodes.lock file = some (.locker process) ∧
      inodes.named () = some file

/-- What the sweep knows: the name stays between its open and its removal. -/
def PrunerOk (inodes : Inodes Unit (LockOwner Process) Unit) : Pruner → Prop
  | .idle | .examined => True
  | .opened file => inodes.named () = some file
  | .locked file => inodes.lock file = some .sweep ∧ inodes.named () = some file
  | .removed file => file < inodes.next ∧ inodes.lock file = some .sweep

structure Invariant (world : CaptureWorld Process) : Prop where
  lockers : ∀ process, LockerOk world.inodes process (world.lockers process)
  pruner : PrunerOk world.inodes world.pruner

section

variable {inodes : Inodes Unit (LockOwner Process) Unit} {process : Process} {locker : Locker}
  {pruner : Pruner} {file : Nat} {owner : Option (LockOwner Process)}

theorem LockerOk.lock (h : LockerOk inodes process locker) (howned : locker.owned = some file) :
    inodes.lock file = some (.locker process) := by
  cases locker with
  | idle | opened | inspected => cases howned
  | locked | linked =>
    cases howned
    exact h.2
  | holding =>
    cases howned
    exact h.2.1

theorem PrunerOk.lock (h : PrunerOk inodes pruner) (howned : pruner.owned = some file) :
    inodes.lock file = some .sweep := by
  cases pruner with
  | idle | examined | opened => cases howned
  | locked =>
    cases howned
    exact h.1
  | removed =>
    cases howned
    exact h.2

theorem LockerOk.openCreate (h : LockerOk inodes process locker) :
    LockerOk (inodes.openCreate () ()).2 process locker := by
  have hnext := inodes.le_openCreate_next () ()
  cases locker with
  | idle => trivial
  | opened file => exact Nat.lt_of_lt_of_le h hnext
  | inspected file => exact Nat.lt_of_lt_of_le h hnext
  | locked file => exact ⟨Nat.lt_of_lt_of_le h.1 hnext, (inodes.openCreate_lock () () h.1).trans h.2⟩
  | linked file => exact ⟨Nat.lt_of_lt_of_le h.1 hnext, (inodes.openCreate_lock () () h.1).trans h.2⟩
  | holding file =>
    exact ⟨Nat.lt_of_lt_of_le h.1 hnext, (inodes.openCreate_lock () () h.1).trans h.2.1,
      inodes.openCreate_named_of_some () () h.2.2⟩

theorem PrunerOk.openCreate (h : PrunerOk inodes pruner) :
    PrunerOk (inodes.openCreate () ()).2 pruner := by
  cases pruner with
  | idle => trivial
  | examined => trivial
  | opened file => exact inodes.openCreate_named_of_some () () h
  | locked file =>
    exact ⟨(inodes.openCreate_lock () () (inodes.named_lt _ _ h.2)).trans h.1,
      inodes.openCreate_named_of_some () () h.2⟩
  | removed file =>
    exact ⟨Nat.lt_of_lt_of_le h.1 (inodes.le_openCreate_next () ()),
      (inodes.openCreate_lock () () h.1).trans h.2⟩

/-- A lock of another file does not matter. -/
theorem LockerOk.setLock (h : LockerOk inodes process locker) (hother : locker.owned ≠ some file) :
    LockerOk (inodes.setLock file owner) process locker := by
  cases locker with
  | idle => trivial
  | opened other => exact h
  | inspected other => exact h
  | locked other =>
    have hne : other ≠ file := fun heq => hother (congrArg some heq)
    exact ⟨h.1, (Function.update_of_ne hne ..).trans h.2⟩
  | linked other =>
    have hne : other ≠ file := fun heq => hother (congrArg some heq)
    exact ⟨h.1, (Function.update_of_ne hne ..).trans h.2⟩
  | holding other =>
    have hne : other ≠ file := fun heq => hother (congrArg some heq)
    exact ⟨h.1, (Function.update_of_ne hne ..).trans h.2.1, h.2.2⟩

theorem PrunerOk.setLock (h : PrunerOk inodes pruner) (hother : pruner.owned ≠ some file) :
    PrunerOk (inodes.setLock file owner) pruner := by
  cases pruner with
  | idle => trivial
  | examined => trivial
  | opened other => exact h
  | locked other =>
    have hne : other ≠ file := fun heq => hother (congrArg some heq)
    exact ⟨(Function.update_of_ne hne ..).trans h.1, h.2⟩
  | removed other =>
    have hne : other ≠ file := fun heq => hother (congrArg some heq)
    exact ⟨h.1, (Function.update_of_ne hne ..).trans h.2⟩

end

variable {world : CaptureWorld Process}

theorem invariant_of_quiet (h : world.Quiet) : world.Invariant where
  lockers process := by
    rw [h.lockers]
    trivial
  pruner := by
    rw [h.pruner]
    trivial

theorem Invariant.sweepClose (h : world.Invariant) : world.sweepClose.Invariant := by
  refine ⟨fun process => ?_, trivial⟩
  unfold CaptureWorld.sweepClose release
  dsimp only
  split
  · exact h.lockers process
  · next file hswept =>
    refine (h.lockers process).setLock fun howned => ?_
    have hlock := h.pruner.lock hswept
    rw [(h.lockers process).lock howned] at hlock
    cases hlock

/-- A free lock is not the lock of a call. -/
theorem Invariant.ne_of_free (h : world.Invariant) {file : Nat} (hfree : world.inodes.lock file = none)
    (process : Process) : (world.lockers process).owned ≠ some file := by
  intro howned
  rw [(h.lockers process).lock howned] at hfree
  cases hfree

theorem Invariant.sweepTryLock (h : world.Invariant) {file : Nat} (hpruner : world.pruner = .opened file)
    (hfree : world.inodes.lock file = none) :
    Invariant { world with inodes := world.inodes.setLock file (some .sweep), pruner := .locked file } where
  lockers process := (h.lockers process).setLock (h.ne_of_free hfree process)
  pruner := by
    have hnamed := h.pruner
    rw [hpruner] at hnamed
    exact ⟨Function.update_self .., hnamed⟩

/-- The name that the sweep removes leads to the file that it has the lock of, so nobody holds it. -/
theorem Invariant.sweepRemove (h : world.Invariant) {file : Nat} (hpruner : world.pruner = .locked file) :
    Invariant { world with inodes := world.inodes.unlink (), pruner := .removed file } := by
  have hok := h.pruner
  rw [hpruner] at hok
  refine ⟨fun process => ?_, world.inodes.named_lt _ _ hok.2, hok.1⟩
  have hlocker := h.lockers process
  dsimp only
  cases hstate : world.lockers process with
  | idle => trivial
  | opened other | inspected other | locked other | linked other =>
    rw [hstate] at hlocker
    exact hlocker
  | holding other =>
    rw [hstate] at hlocker
    have hsame := hlocker.2.2.symm.trans hok.2
    cases hsame
    have hlock := hlocker.2.1.symm.trans hok.1
    cases hlock

variable [DecidableEq Process]

/-- A call goes on while the files stay as they are. -/
theorem Invariant.setLocker (h : world.Invariant) {process : Process} {locker : Locker}
    (hlocker : LockerOk world.inodes process locker) : (world.setLocker process locker).Invariant where
  lockers := (Function.forall_update_iff world.lockers (LockerOk world.inodes)).mpr
    ⟨hlocker, fun other _ => h.lockers other⟩
  pruner := h.pruner

/-- A call closes its file; the locks of the others stay. -/
theorem Invariant.close (h : world.Invariant) (process : Process) :
    (world.close process).Invariant := by
  have hrelease : ∀ file, (world.lockers process).owned = some file →
      (∀ other ≠ process, (world.lockers other).owned ≠ some file) ∧
        world.pruner.owned ≠ some file := by
    intro file howned
    have hlock := (h.lockers process).lock howned
    refine ⟨fun other hne hother => ?_, fun hswept => ?_⟩
    · rw [(h.lockers other).lock hother] at hlock
      cases hlock
      exact hne rfl
    · rw [h.pruner.lock hswept] at hlock
      cases hlock
  refine ⟨(Function.forall_update_iff world.lockers (LockerOk _)).mpr ⟨trivial, fun other hne => ?_⟩, ?_⟩
  · unfold CaptureWorld.close release
    dsimp only [CaptureWorld.setLocker]
    split
    · exact h.lockers other
    · next file howned => exact (h.lockers other).setLock ((hrelease file howned).1 other hne)
  · unfold CaptureWorld.close release
    dsimp only [CaptureWorld.setLocker]
    split
    · exact h.pruner
    · next file howned => exact h.pruner.setLock (hrelease file howned).2

theorem Invariant.openFile (h : world.Invariant) (process : Process) :
    Invariant (CaptureWorld.setLocker { world with inodes := (world.inodes.openCreate () ()).2 } process
      (.opened (world.inodes.openCreate () ()).1)) := by
  have hopened : Invariant { world with inodes := (world.inodes.openCreate () ()).2 } :=
    ⟨fun other => (h.lockers other).openCreate, h.pruner.openCreate⟩
  exact hopened.setLocker (Inodes.named_lt _ _ _ (world.inodes.openCreate_named () ()))

theorem Invariant.tryLock (h : world.Invariant) {process : Process} {file : Nat}
    (hfile : world.lockers process = .inspected file) (hfree : world.inodes.lock file = none) :
    Invariant (CaptureWorld.setLocker
      { world with inodes := world.inodes.setLock file (some (.locker process)) } process
      (.locked file)) := by
  have hlocked : Invariant
      { world with inodes := world.inodes.setLock file (some (.locker process)) } := by
    refine ⟨fun other => (h.lockers other).setLock (h.ne_of_free hfree other), ?_⟩
    refine h.pruner.setLock fun hswept => ?_
    rw [h.pruner.lock hswept] at hfree
    cases hfree
  have hlt := h.lockers process
  rw [hfile] at hlt
  exact hlocked.setLocker ⟨hlt, Function.update_self ..⟩

theorem Invariant.step (h : world.Invariant) (event : CaptureEvent Process) :
    (world.step event).Invariant := by
  cases event with
  | openFile process =>
    rw [CaptureWorld.step]
    split
    · exact h.openFile process
    · exact h
  | inspect process =>
    rw [CaptureWorld.step]
    split
    · next file hstate =>
      have hlocker := h.lockers process
      rw [hstate] at hlocker
      split
      · exact h.setLocker hlocker
      · exact h.close process
    · exact h
  | tryLock process =>
    rw [CaptureWorld.step]
    split
    · next file hstate =>
      split
      · next hfree => exact h.tryLock hstate hfree
      · exact h.close process
    · exact h
  | stat process =>
    rw [CaptureWorld.step]
    split
    · next file hstate =>
      have hlocker := h.lockers process
      rw [hstate] at hlocker
      split
      · exact h.setLocker hlocker
      · exact h.close process
    · exact h
  | lstat process =>
    rw [CaptureWorld.step]
    split
    · next file hstate =>
      have hlocker := h.lockers process
      rw [hstate] at hlocker
      split
      · next hnamed => exact h.setLocker ⟨hlocker.1, hlocker.2, hnamed⟩
      · exact h.close process
    · exact h
  | close process => exact h.close process
  | sweepExamine =>
    rw [CaptureWorld.step]
    split
    · split
      · exact ⟨h.lockers, trivial⟩
      · exact h
    · exact h
  | sweepOpen =>
    rw [CaptureWorld.step]
    split
    · next hnamed => exact ⟨h.lockers, hnamed⟩
    · exact h.sweepClose
    · exact h
  | sweepTryLock =>
    rw [CaptureWorld.step]
    split
    · next file hpruner =>
      split
      · next hfree => exact h.sweepTryLock hpruner hfree
      · exact h.sweepClose
    · exact h
  | sweepRemove =>
    rw [CaptureWorld.step]
    split
    · next file hpruner => exact h.sweepRemove hpruner
    · exact h
  | sweepClose => exact h.sweepClose

theorem run_invariant (h : world.Invariant) (events : List (CaptureEvent Process)) :
    (world.run events).Invariant := by
  induction events generalizing world with
  | nil => exact h
  | cons event events ih => exact ih (h.step event)

/-- No two calls hold a file that `lock_capture_within` has returned. -/
theorem capture_lock_exclusive (hquiet : world.Quiet) (events : List (CaptureEvent Process))
    {a b : Process} {file other : Nat} (ha : (world.run events).lockers a = .holding file)
    (hb : (world.run events).lockers b = .holding other) : a = b := by
  have h := run_invariant (invariant_of_quiet hquiet) events
  have hfirst := h.lockers a
  have hsecond := h.lockers b
  rw [ha] at hfirst
  rw [hb] at hsecond
  -- both have the file of the name, which has one lock
  have hsame := hfirst.2.2.symm.trans hsecond.2.2
  cases hsame
  have hlock := hfirst.2.1.symm.trans hsecond.2.1
  cases hlock
  rfl

/-! ## A file that loses its name -/

namespace Sample

def quiet : CaptureWorld Bool where
  inodes :=
    { named := fun _ => none
      next := 0
      content := fun _ => ()
      lock := fun _ => none
      named_lt := fun _ _ h => nomatch h }
  lockers _ := .idle
  pruner := .idle

/-- The sweep removes the name of the file that a call is about to lock. The call opens another one,
which it holds, and another call gives up. -/
def events : List (CaptureEvent Bool) :=
  [.openFile true, .inspect true, .sweepExamine, .sweepOpen, .sweepTryLock, .sweepRemove, .sweepClose,
    .tryLock true, .stat true, .openFile true, .inspect true, .tryLock true, .stat true, .lstat true,
    .openFile false, .inspect false, .tryLock false]

theorem capture_lock_exclusive_pruned :
    (quiet.run events).lockers true = .holding 1 ∧
      ∀ process file, (quiet.run events).lockers process = .holding file → true = process :=
  ⟨rfl, fun _ _ h => capture_lock_exclusive ⟨fun _ => rfl, rfl⟩ events rfl h⟩

end Sample

end CaptureWorld

end Tally.Executor
