import Tally.Executor.CaptureLock

/-!
# What a call for the lock of a capture returns

The loop of `lock_capture_within` (`captures.rs`) around the steps on the file: a round that finds the
lock taken, or the name gone once it has the lock, closes the file, and the call gives up or goes on as
its budget says. A round that finds the name gone before that is refused: the file it opened has no link
any more, which reads as a file that is not private. As long as the sweep removes no name between an
open and the look that follows it, a call returns the lock or is told that it is contended
(`capture_calls_ok`), and it does return (`returns_of_elapsed`).
-/

namespace Tally.Executor

/-! ## Calls -/

inductive LockResult
  | held (file : Nat)
  /-- `CaptureLockContended`, and how long the call had waited. -/
  | contended (waited : Nat)
  /-- The file is not a private regular file. -/
  | invalidRequest
  deriving DecidableEq

inductive Phase
  /-- There is no call. -/
  | idle
  /-- In a round of the loop; how far it is, the steps on the file say. -/
  | round
  /-- The file of a round was dropped. -/
  | dropped
  | returned (result : LockResult)
  deriving DecidableEq

structure LockCall where
  started : Nat
  budget : Nat
  phase : Phase
  deriving DecidableEq

/-- The file, the calls and the clock. -/
structure CallWorld (Process : Type) where
  capture : CaptureWorld Process
  calls : Process → LockCall
  clock : Nat

inductive CallEvent (Process : Type)
  | begin (process : Process) (budget : Nat)
  /-- The next step of a call. -/
  | advance (process : Process)
  /-- The caller drops the file it was given, or has read the error. -/
  | finish (process : Process)
  | sweepExamine
  | sweepOpen
  | sweepTryLock
  | sweepRemove
  | sweepClose
  | tick (elapsed : Nat)
  deriving DecidableEq

namespace CallWorld

variable {Process : Type} [DecidableEq Process]

def setPhase (world : CallWorld Process) (process : Process) (phase : Phase) : CallWorld Process :=
  { world with
    calls := Function.update world.calls process { world.calls process with phase } }

/-- The step on the file that a call makes in a round. -/
def fileStep (process : Process) : Locker → CaptureEvent Process
  | .idle => .openFile process
  | .opened _ => .inspect process
  | .inspected _ => .tryLock process
  | .locked _ => .stat process
  | .linked _ => .lstat process
  | .holding _ => .close process

/-- Where a call is after its step on the file: a file that is closed before it was found private is
refused, one that is closed later is dropped. -/
def phaseAfter : Locker → Locker → Phase
  | .opened _, .idle => .returned .invalidRequest
  | _, .idle => .dropped
  | _, .holding file => .returned (.held file)
  | _, _ => .round

/-- `started.elapsed()` against the budget. -/
def decide (world : CallWorld Process) (process : Process) : Phase :=
  let waited := world.clock - (world.calls process).started
  if (world.calls process).budget ≤ waited then .returned (.contended waited) else .round

def sweep (world : CallWorld Process) (event : CaptureEvent Process) : CallWorld Process :=
  { world with capture := world.capture.step event }

def advance (world : CallWorld Process) (process : Process) : CallWorld Process :=
  match (world.calls process).phase with
  | .round =>
    let before := world.capture.lockers process
    let capture := world.capture.step (fileStep process before)
    { world with capture }.setPhase process (phaseAfter before (capture.lockers process))
  | .dropped => world.setPhase process (world.decide process)
  | .idle | .returned _ => world

/-- A step of one of the parties. One that is not there to be taken does nothing. -/
def step (world : CallWorld Process) : CallEvent Process → CallWorld Process
  | .begin process budget =>
    match (world.calls process).phase with
    | .idle =>
      { world with
        calls := Function.update world.calls process { started := world.clock, budget, phase := .round } }
    | _ => world
  | .advance process => world.advance process
  | .finish process =>
    match (world.calls process).phase with
    | .returned _ => { world with capture := world.capture.close process }.setPhase process .idle
    | _ => world
  | .sweepExamine => world.sweep .sweepExamine
  | .sweepOpen => world.sweep .sweepOpen
  | .sweepTryLock => world.sweep .sweepTryLock
  | .sweepRemove => world.sweep .sweepRemove
  | .sweepClose => world.sweep .sweepClose
  | .tick elapsed => { world with clock := world.clock + elapsed }

def run (world : CallWorld Process) (events : List (CallEvent Process)) : CallWorld Process :=
  events.foldl step world

/-- No call has been made yet; the file may be there or not. -/
structure Quiet (world : CallWorld Process) : Prop where
  capture : world.capture.Quiet
  calls : ∀ process, (world.calls process).phase = .idle

/-- The sweep does not remove the name of a file that a call has opened and not looked at. -/
def Timely (world : CallWorld Process) : CallEvent Process → Prop
  | .sweepRemove => ∀ process file, world.capture.pruner = .locked file →
      world.capture.lockers process ≠ .opened file
  | _ => True

/-- Every step of a run, with the world that it starts from, is timely. -/
def TimelyRun : CallWorld Process → List (CallEvent Process) → Prop
  | _, [] => True
  | world, event :: events => world.Timely event ∧ TimelyRun (world.step event) events

/-- What a call has come to: one that has returned holds the lock, or has waited out its budget. -/
def CallOk (world : CallWorld Process) (process : Process) : Prop :=
  match (world.calls process).phase with
  | .idle | .dropped => world.capture.lockers process = .idle
  | .round => ∀ file, world.capture.lockers process ≠ .holding file
  | .returned (.held file) =>
    world.capture.lockers process = .holding file ∧
      world.capture.inodes.lock file = some (.locker process) ∧
      world.capture.inodes.named () = some file
  | .returned (.contended waited) =>
    world.capture.lockers process = .idle ∧ (world.calls process).budget ≤ waited
  | .returned .invalidRequest => False

/-! ## A step of a call -/

/-- How many steps of its own a call is from its return at most, once its budget has elapsed. -/
def remaining : Phase → Locker → Nat
  | .idle, _ | .returned _, _ => 0
  | .dropped, _ => 1
  | .round, .idle => 6
  | .round, .opened _ => 5
  | .round, .inspected _ => 4
  | .round, .locked _ => 3
  | .round, .linked _ | .round, .holding _ => 2

def Running (world : CallWorld Process) (process : Process) : Prop :=
  (world.calls process).phase = .round ∨ (world.calls process).phase = .dropped

def Elapsed (world : CallWorld Process) (process : Process) : Prop :=
  (world.calls process).budget ≤ world.clock - (world.calls process).started

/-- The call and its file, apart from what the others have done to the name and the lock. -/
def PhaseOk (call : LockCall) (locker : Locker) : Prop :=
  match call.phase with
  | .idle | .dropped => locker = .idle
  | .round => ∀ file, locker ≠ .holding file
  | .returned (.held file) => locker = .holding file
  | .returned (.contended waited) => locker = .idle ∧ call.budget ≤ waited
  | .returned .invalidRequest => False

section

variable {capture : CaptureWorld Process} {process other : Process}

theorem fileStep_lockers_of_ne (hne : other ≠ process) :
    (capture.step (fileStep process (capture.lockers process))).lockers other =
      capture.lockers other := by
  cases hlocker : capture.lockers process with
  | idle =>
    simp only [fileStep, CaptureWorld.step, hlocker]
    exact Function.update_of_ne hne ..
  | opened file | inspected file | locked file | linked file =>
    simp only [fileStep, CaptureWorld.step, hlocker]
    split <;> exact Function.update_of_ne hne ..
  | holding file =>
    exact Function.update_of_ne hne ..

omit [DecidableEq Process] in
theorem release_named (inodes : Lib.Inodes Unit (LockOwner Process) Unit) (owned : Option Nat) :
    (CaptureWorld.release inodes owned).named = inodes.named := by
  unfold CaptureWorld.release
  split <;> rfl

def BySweep : CaptureEvent Process → Prop
  | .sweepExamine | .sweepOpen | .sweepTryLock | .sweepRemove | .sweepClose => True
  | _ => False

theorem step_lockers_of_bySweep {event : CaptureEvent Process} (hsweep : BySweep event) :
    (capture.step event).lockers = capture.lockers := by
  cases event with
  | sweepExamine =>
    simp only [CaptureWorld.step]
    repeat' split
    all_goals rfl
  | sweepOpen =>
    simp only [CaptureWorld.step]
    split <;> rfl
  | sweepTryLock =>
    simp only [CaptureWorld.step]
    repeat' split
    all_goals rfl
  | sweepRemove =>
    simp only [CaptureWorld.step]
    split <;> rfl
  | sweepClose => rfl
  | openFile | inspect | tryLock | stat | lstat | close => exact hsweep.elim

/-- The sweep leaves the name as it is until it removes it. -/
theorem step_named_of_bySweep {event : CaptureEvent Process} (hsweep : BySweep event)
    (hkept : event ≠ .sweepRemove) : (capture.step event).inodes.named = capture.inodes.named := by
  cases event with
  | sweepExamine =>
    simp only [CaptureWorld.step]
    repeat' split
    all_goals rfl
  | sweepOpen =>
    simp only [CaptureWorld.step]
    split
    · rfl
    · exact release_named ..
    · rfl
  | sweepTryLock =>
    simp only [CaptureWorld.step]
    split
    · split
      · rfl
      · exact release_named ..
    · rfl
  | sweepRemove => exact absurd rfl hkept
  | sweepClose => exact release_named ..
  | openFile | inspect | tryLock | stat | lstat | close => exact hsweep.elim

/-- A caller leaves a name that leads to a file as it is. -/
theorem fileStep_named {file : Nat} (hnamed : capture.inodes.named () = some file) :
    (capture.step (fileStep process (capture.lockers process))).inodes.named () = some file := by
  cases hlocker : capture.lockers process with
  | idle =>
    simp only [fileStep, CaptureWorld.step, hlocker]
    exact Lib.Inodes.openCreate_named_of_some () () hnamed
  | opened opened | inspected opened | locked opened | linked opened =>
    simp only [fileStep, CaptureWorld.step, hlocker]
    split
    · exact hnamed
    · exact (congrFun (release_named ..) ()).trans hnamed
  | holding held => exact (congrFun (release_named ..) ()).trans hnamed

/-- What a step on the file makes of a call whose file still has the name if it has not looked yet. -/
theorem fileStep_cases
    (hfresh : ∀ file, capture.lockers process = .opened file → capture.inodes.named () = some file)
    (hround : ∀ file, capture.lockers process ≠ .holding file) :
    ∃ locker, (capture.step (fileStep process (capture.lockers process))).lockers process = locker ∧
      ((phaseAfter (capture.lockers process) locker = .dropped ∧ locker = .idle) ∨
        (∃ file, phaseAfter (capture.lockers process) locker = .returned (.held file) ∧
          locker = .holding file) ∨
        (phaseAfter (capture.lockers process) locker = .round ∧ (∀ file, locker ≠ .holding file) ∧
          remaining .round locker < remaining .round (capture.lockers process))) := by
  have hself : ∀ locker, Function.update capture.lockers process locker process = locker :=
    fun locker => Function.update_self ..
  cases hlocker : capture.lockers process with
  | idle =>
    simp only [fileStep, CaptureWorld.step, hlocker]
    exact ⟨_, hself _, .inr (.inr ⟨rfl, fun _ h => (by cases h), Nat.lt_succ_self _⟩)⟩
  | opened file =>
    simp only [fileStep, CaptureWorld.step, hlocker, hfresh file hlocker, if_true]
    exact ⟨_, hself _, .inr (.inr ⟨rfl, fun _ h => (by cases h), Nat.lt_succ_self _⟩)⟩
  | inspected file =>
    simp only [fileStep, CaptureWorld.step, hlocker]
    split
    · exact ⟨_, hself _, .inr (.inr ⟨rfl, fun _ h => (by cases h), Nat.lt_succ_self _⟩)⟩
    · exact ⟨_, hself _, .inl ⟨rfl, rfl⟩⟩
  | locked file =>
    simp only [fileStep, CaptureWorld.step, hlocker]
    split
    · exact ⟨_, hself _, .inr (.inr ⟨rfl, fun _ h => (by cases h), Nat.lt_succ_self _⟩)⟩
    · exact ⟨_, hself _, .inl ⟨rfl, rfl⟩⟩
  | linked file =>
    simp only [fileStep, CaptureWorld.step, hlocker]
    split
    · exact ⟨_, hself _, .inr (.inl ⟨file, rfl, rfl⟩)⟩
    · exact ⟨_, hself _, .inl ⟨rfl, rfl⟩⟩
  | holding file => exact absurd hlocker (hround file)

end

/-! ## The invariant -/

structure Ok (world : CallWorld Process) : Prop where
  capture : world.capture.Invariant
  /-- The name stays between the open of a call and its look. -/
  fresh : ∀ process file, world.capture.lockers process = .opened file →
    world.capture.inodes.named () = some file
  phases : ∀ process, PhaseOk (world.calls process) (world.capture.lockers process)

section

variable {world : CallWorld Process} {process other : Process}

omit [DecidableEq Process] in
theorem Quiet.ok (h : world.Quiet) : world.Ok where
  capture := CaptureWorld.invariant_of_quiet h.capture
  fresh process file hopened := by
    rw [h.capture.lockers] at hopened
    cases hopened
  phases process := by
    rw [PhaseOk, h.calls, h.capture.lockers]

omit [DecidableEq Process] in
theorem Ok.callOk (h : world.Ok) (process : Process) : world.CallOk process := by
  have hphase := h.phases process
  unfold PhaseOk at hphase
  unfold CallOk
  split at hphase
  · exact hphase
  · exact hphase
  · exact hphase
  · next file _ =>
    have hlocker := h.capture.lockers process
    rw [hphase] at hlocker
    exact ⟨hphase, hlocker.2⟩
  · exact hphase
  · exact hphase

omit [DecidableEq Process] in
theorem Ok.not_holding (h : world.Ok) (hround : (world.calls process).phase = .round) (file : Nat) :
    world.capture.lockers process ≠ .holding file := by
  have hphase := h.phases process
  rw [PhaseOk, hround] at hphase
  exact hphase file

theorem Ok.round_cases (h : world.Ok) (hround : (world.calls process).phase = .round) :
    ∃ locker,
      (world.capture.step (fileStep process (world.capture.lockers process))).lockers process = locker ∧
      ((phaseAfter (world.capture.lockers process) locker = .dropped ∧ locker = .idle) ∨
        (∃ file, phaseAfter (world.capture.lockers process) locker = .returned (.held file) ∧
          locker = .holding file) ∨
        (phaseAfter (world.capture.lockers process) locker = .round ∧
          (∀ file, locker ≠ .holding file) ∧
          remaining .round locker < remaining .round (world.capture.lockers process))) :=
  fileStep_cases (h.fresh process) (h.not_holding hround)

theorem advance_of_round (hround : (world.calls process).phase = .round) :
    world.advance process =
      setPhase { world with
        capture := world.capture.step (fileStep process (world.capture.lockers process)) } process
        (phaseAfter (world.capture.lockers process)
          ((world.capture.step (fileStep process (world.capture.lockers process))).lockers process)) := by
  rw [advance, hround]

theorem advance_of_dropped (hdropped : (world.calls process).phase = .dropped) :
    world.advance process = world.setPhase process (world.decide process) := by
  rw [advance, hdropped]

/-- A call is in another phase, and the calls of the others are what they were. -/
theorem phases_setPhase {phase : Phase}
    (hself : PhaseOk { world.calls process with phase } (world.capture.lockers process))
    (hothers : ∀ other ≠ process, PhaseOk (world.calls other) (world.capture.lockers other))
    (other : Process) :
    PhaseOk ((world.setPhase process phase).calls other)
      ((world.setPhase process phase).capture.lockers other) :=
  (Function.forall_update_iff world.calls
    fun other call => PhaseOk call (world.capture.lockers other)).mpr ⟨hself, hothers⟩ other

theorem Ok.advance_round (h : world.Ok) (hround : (world.calls process).phase = .round) :
    (world.advance process).Ok := by
  rw [advance_of_round hround]
  obtain ⟨locker, hlocker, hcases⟩ := h.round_cases hround
  refine ⟨h.capture.step _, fun other file hopened => ?_, phases_setPhase ?_ fun other hne => ?_⟩
  · -- the caller that has opened the file did so before, or in this step
    rcases eq_or_ne other process with rfl | hne
    · cases hbefore : world.capture.lockers other with
      | idle =>
        simp only [setPhase, hbefore, fileStep, CaptureWorld.step, CaptureWorld.setLocker,
          Function.update_self, Locker.opened.injEq] at hopened ⊢
        rw [← hopened]
        exact Lib.Inodes.openCreate_named () ()
      | opened opened | inspected opened | locked opened | linked opened =>
        simp only [setPhase, hbefore, fileStep, CaptureWorld.step] at hopened
        split at hopened <;>
          simp only [CaptureWorld.close, CaptureWorld.setLocker, Function.update_self] at hopened <;>
          cases hopened
      | holding file => exact absurd hbefore (h.not_holding hround file)
    · exact fileStep_named (h.fresh other file ((fileStep_lockers_of_ne hne).symm.trans hopened))
  · rw [hlocker]
    rcases hcases with ⟨hphase, rfl⟩ | ⟨file, hphase, rfl⟩ | ⟨hphase, hholding, -⟩
    · rw [hphase]
      rfl
    · rw [hphase]
      rfl
    · rw [hphase]
      exact hholding
  · exact (fileStep_lockers_of_ne hne).symm ▸ h.phases other

theorem Ok.setPhase (h : world.Ok) {phase : Phase}
    (hphase : PhaseOk { world.calls process with phase } (world.capture.lockers process)) :
    (world.setPhase process phase).Ok where
  capture := h.capture
  fresh := h.fresh
  phases := phases_setPhase hphase fun other _ => h.phases other

omit [DecidableEq Process] in
theorem Ok.locker_of_dropped (h : world.Ok) (hdropped : (world.calls process).phase = .dropped) :
    world.capture.lockers process = .idle := by
  have hphase := h.phases process
  rw [PhaseOk, hdropped] at hphase
  exact hphase

theorem Ok.advance (h : world.Ok) : (world.advance process).Ok := by
  cases hphase : (world.calls process).phase with
  | round => exact h.advance_round hphase
  | dropped =>
    rw [advance_of_dropped hphase]
    have hidle := h.locker_of_dropped hphase
    apply h.setPhase
    rw [hidle]
    unfold CallWorld.decide
    dsimp only
    split
    · next helapsed => exact ⟨rfl, helapsed⟩
    · exact nofun
  | idle =>
    rw [CallWorld.advance, hphase]
    exact h
  | returned result =>
    rw [CallWorld.advance, hphase]
    exact h

theorem Ok.begin (h : world.Ok) {budget : Nat} (hidle : (world.calls process).phase = .idle) :
    Ok { world with
      calls := Function.update world.calls process { started := world.clock, budget, phase := .round } } where
  capture := h.capture
  fresh := h.fresh
  phases := by
    have hphase := h.phases process
    rw [PhaseOk, hidle] at hphase
    refine (Function.forall_update_iff world.calls
      fun other call => PhaseOk call (world.capture.lockers other)).mpr ⟨?_, fun other _ => h.phases other⟩
    dsimp only at hphase
    rw [hphase]
    exact nofun

theorem Ok.finish (h : world.Ok) :
    Ok (CallWorld.setPhase { world with capture := world.capture.close process } process .idle) where
  capture := h.capture.close process
  fresh other file hopened := by
    have hnamed : (world.capture.close process).inodes.named = world.capture.inodes.named :=
      release_named ..
    rcases eq_or_ne other process with rfl | hne
    · simp only [CallWorld.setPhase, CaptureWorld.close, CaptureWorld.setLocker,
        Function.update_self] at hopened
      cases hopened
    · exact (congrFun hnamed ()).trans
        (h.fresh other file ((Function.update_of_ne hne ..).symm.trans hopened))
  phases := by
    apply phases_setPhase
    · exact Function.update_self ..
    · intro other hne
      have hlocker : (world.capture.close process).lockers other = world.capture.lockers other :=
        Function.update_of_ne hne ..
      exact hlocker.symm ▸ h.phases other

theorem Ok.sweep (h : world.Ok) {event : CaptureEvent Process} (hsweep : BySweep event)
    (hnamed : ∀ process file, world.capture.lockers process = .opened file →
      (world.capture.step event).inodes.named = world.capture.inodes.named) :
    (world.sweep event).Ok where
  capture := h.capture.step event
  fresh process file hopened := by
    have hbefore := (congrFun (step_lockers_of_bySweep hsweep) process).symm.trans hopened
    exact (congrFun (hnamed process file hbefore) ()).trans (h.fresh process file hbefore)
  phases process := (congrFun (step_lockers_of_bySweep hsweep) process).symm ▸ h.phases process

/-- The file under the name that the sweep removes is not one that a call is about to look at. -/
theorem Ok.sweepRemove (h : world.Ok) (htimely : world.Timely .sweepRemove) :
    (world.sweep .sweepRemove).Ok := by
  refine h.sweep (show BySweep .sweepRemove from trivial) fun process file hopened => ?_
  rw [CaptureWorld.step]
  split
  · next locked hpruner =>
    have hok := h.capture.pruner
    rw [hpruner] at hok
    have hsame := (h.fresh process file hopened).symm.trans hok.2
    cases hsame
    exact absurd hopened (htimely process file hpruner)
  · rfl

theorem Ok.step (h : world.Ok) {event : CallEvent Process} (htimely : world.Timely event) :
    (world.step event).Ok := by
  cases event with
  | begin process budget =>
    rw [CallWorld.step]
    split
    · next hidle => exact h.begin hidle
    · exact h
  | advance process => exact h.advance
  | finish process =>
    rw [CallWorld.step]
    split
    · exact h.finish
    · exact h
  | sweepExamine => exact h.sweep trivial fun _ _ _ => step_named_of_bySweep trivial nofun
  | sweepOpen => exact h.sweep trivial fun _ _ _ => step_named_of_bySweep trivial nofun
  | sweepTryLock => exact h.sweep trivial fun _ _ _ => step_named_of_bySweep trivial nofun
  | sweepRemove => exact h.sweepRemove htimely
  | sweepClose => exact h.sweep trivial fun _ _ _ => step_named_of_bySweep trivial nofun
  | tick elapsed => exact ⟨h.capture, h.fresh, h.phases⟩

theorem Ok.run (h : world.Ok) {events : List (CallEvent Process)} (htimely : TimelyRun world events) :
    (world.run events).Ok := by
  induction events generalizing world with
  | nil => exact h
  | cons event events ih => exact ih (h.step htimely.1) htimely.2

/-! ## A call returns -/

theorem sweep_locker {event : CaptureEvent Process} (hsweep : BySweep event) :
    (world.sweep event).capture.lockers process = world.capture.lockers process :=
  congrFun (step_lockers_of_bySweep hsweep) process

/-- The others do not touch a call that is running. -/
theorem step_frame (hrunning : world.Running process) {event : CallEvent Process}
    (hother : event ≠ .advance process) :
    (world.step event).calls process = world.calls process ∧
      (world.step event).capture.lockers process = world.capture.lockers process ∧
      world.clock ≤ (world.step event).clock := by
  cases event with
  | begin other budget =>
    rw [CallWorld.step]
    split
    · next hidle =>
      have hne : process ≠ other := by
        rintro rfl
        rcases hrunning with hphase | hphase <;> rw [hphase] at hidle <;> cases hidle
      exact ⟨Function.update_of_ne hne .., rfl, Nat.le_refl _⟩
    · exact ⟨rfl, rfl, Nat.le_refl _⟩
  | advance other =>
    have hne : process ≠ other := fun heq => hother (congrArg CallEvent.advance heq.symm)
    rw [CallWorld.step, CallWorld.advance]
    split
    · exact ⟨Function.update_of_ne hne .., fileStep_lockers_of_ne hne, Nat.le_refl _⟩
    · exact ⟨Function.update_of_ne hne .., rfl, Nat.le_refl _⟩
    · exact ⟨rfl, rfl, Nat.le_refl _⟩
    · exact ⟨rfl, rfl, Nat.le_refl _⟩
  | finish other =>
    rw [CallWorld.step]
    split
    · next hreturned =>
      have hne : process ≠ other := by
        rintro rfl
        rcases hrunning with hphase | hphase <;> rw [hphase] at hreturned <;> cases hreturned
      exact ⟨Function.update_of_ne hne .., Function.update_of_ne hne .., Nat.le_refl _⟩
    · exact ⟨rfl, rfl, Nat.le_refl _⟩
  | sweepExamine =>
    exact ⟨rfl, sweep_locker (show BySweep .sweepExamine from trivial), Nat.le_refl _⟩
  | sweepOpen => exact ⟨rfl, sweep_locker (show BySweep .sweepOpen from trivial), Nat.le_refl _⟩
  | sweepTryLock => exact ⟨rfl, sweep_locker (show BySweep .sweepTryLock from trivial), Nat.le_refl _⟩
  | sweepRemove => exact ⟨rfl, sweep_locker (show BySweep .sweepRemove from trivial), Nat.le_refl _⟩
  | sweepClose => exact ⟨rfl, sweep_locker (show BySweep .sweepClose from trivial), Nat.le_refl _⟩
  | tick elapsed => exact ⟨rfl, rfl, Nat.le_add_right ..⟩

def callRemaining (world : CallWorld Process) (process : Process) : Nat :=
  remaining (world.calls process).phase (world.capture.lockers process)

/-- A step of its own takes a call whose budget has elapsed nearer to its return. -/
theorem Ok.advance_remaining (h : world.Ok) (hrunning : world.Running process)
    (helapsed : world.Elapsed process) :
    (∃ result, ((world.advance process).calls process).phase = .returned result) ∨
      ((world.advance process).Running process ∧ (world.advance process).Elapsed process ∧
        (world.advance process).callRemaining process < world.callRemaining process) := by
  rcases hrunning with hround | hdropped
  · obtain ⟨locker, hlocker, hcases⟩ := h.round_cases hround
    rw [advance_of_round hround]
    unfold callRemaining Running Elapsed CallWorld.setPhase
    dsimp only
    simp only [Function.update_self, hround, hlocker]
    rcases hcases with ⟨hphase, rfl⟩ | ⟨file, hphase, rfl⟩ | ⟨hphase, -, hless⟩
    · refine .inr ⟨.inr hphase, helapsed, ?_⟩
      rw [hphase]
      cases world.capture.lockers process <;> exact Nat.le_of_ble_eq_true rfl
    · exact .inl ⟨_, hphase⟩
    · refine .inr ⟨.inl hphase, helapsed, ?_⟩
      rw [hphase]
      exact hless
  · rw [advance_of_dropped hdropped]
    refine .inl ⟨.contended (world.clock - (world.calls process).started), ?_⟩
    unfold CallWorld.setPhase CallWorld.decide
    dsimp only
    rw [Function.update_self]
    exact if_pos helapsed

omit [DecidableEq Process] in
theorem remaining_le (world : CallWorld Process) (process : Process) :
    world.callRemaining process ≤ 6 := by
  unfold callRemaining
  cases (world.calls process).phase with
  | idle | dropped | returned => exact Nat.le_of_ble_eq_true rfl
  | round => cases world.capture.lockers process <;> exact Nat.le_of_ble_eq_true rfl

theorem TimelyRun.of_prefix {past events : List (CallEvent Process)} (h : TimelyRun world events)
    (hpast : past <+: events) : TimelyRun world past := by
  induction past generalizing world events with
  | nil => trivial
  | cons event past ih =>
    obtain ⟨later, rfl⟩ := hpast
    exact ⟨h.1, ih h.2 (List.prefix_append ..)⟩

/-- A call whose budget has elapsed returns after at most six steps of its own, whatever the others do. -/
theorem Ok.returns (h : world.Ok) {events : List (CallEvent Process)} (htimely : TimelyRun world events)
    (hrunning : world.Running process) (helapsed : world.Elapsed process)
    (hsteps : world.callRemaining process ≤ events.count (.advance process)) :
    ∃ past, past <+: events ∧ ∃ result, ((world.run past).calls process).phase = .returned result := by
  induction events generalizing world with
  | nil =>
    rw [List.count_nil, Nat.le_zero] at hsteps
    unfold callRemaining at hsteps
    rcases hrunning with hphase | hphase <;> rw [hphase] at hsteps
    · cases hlocker : world.capture.lockers process <;> rw [hlocker] at hsteps <;> cases hsteps
    · cases hsteps
  | cons event events ih =>
    have hextend : (∃ past, past <+: events ∧
          ∃ result, (((world.step event).run past).calls process).phase = .returned result) →
        ∃ past, past <+: event :: events ∧
          ∃ result, ((world.run past).calls process).phase = .returned result :=
      fun ⟨past, hpast, hreturned⟩ => ⟨event :: past, List.cons_prefix_cons.mpr ⟨rfl, hpast⟩, hreturned⟩
    by_cases hown : event = .advance process
    · subst hown
      rw [List.count_cons_self] at hsteps
      rcases h.advance_remaining hrunning helapsed with hreturned | ⟨hstill, hlater, hless⟩
      · exact ⟨[.advance process], List.cons_prefix_cons.mpr ⟨rfl, List.nil_prefix⟩, hreturned⟩
      · exact hextend (ih (h.step htimely.1) htimely.2 hstill hlater
          (Nat.le_of_lt_succ (Nat.lt_of_lt_of_le hless hsteps)))
    · rw [List.count_cons_of_ne hown] at hsteps
      obtain ⟨hcall, hlocker, hclock⟩ := step_frame hrunning hown
      apply hextend
      apply ih (h.step htimely.1) htimely.2
      · unfold Running
        rw [hcall]
        exact hrunning
      · unfold Elapsed at helapsed ⊢
        rw [hcall]
        omega
      · unfold callRemaining
        rw [hcall, hlocker]
        exact hsteps

end

/-- In a run in which the sweep removes no name that a call has opened and not looked at, a call returns
the lock or has waited out its budget, and once it has waited that long it returns. -/
theorem capture_calls_ok {world : CallWorld Process} (hquiet : world.Quiet)
    (events : List (CallEvent Process)) (htimely : TimelyRun world events) (process : Process) :
    (world.run events).CallOk process ∧
      ((world.run events).Running process → (world.run events).Elapsed process →
        ∀ later, TimelyRun (world.run events) later → 6 ≤ later.count (.advance process) →
          ∃ past, past <+: later ∧ ((world.run events).run past).CallOk process ∧
            ∃ result, (((world.run events).run past).calls process).phase = .returned result) := by
  have hok := hquiet.ok.run htimely
  refine ⟨hok.callOk process, fun hrunning helapsed later hlater hsteps => ?_⟩
  have hremaining : (world.run events).callRemaining process ≤ 6 := remaining_le ..
  obtain ⟨past, hpast, result, hreturned⟩ :=
    hok.returns hlater hrunning helapsed (Nat.le_trans hremaining hsteps)
  exact ⟨past, hpast, (hok.run (hlater.of_prefix hpast)).callOk process, result, hreturned⟩

/-! ## A file that loses its name before the look -/

namespace Sample

def empty : CallWorld Bool where
  capture := CaptureWorld.Sample.quiet
  calls _ := { started := 0, budget := 0, phase := .idle }
  clock := 0

theorem quiet_empty : empty.Quiet := ⟨⟨fun _ => rfl, rfl⟩, fun _ => rfl⟩

/-- A call creates the file, and its caller drops it. -/
def first : List (CallEvent Bool) :=
  [.begin true 10, .advance true, .advance true, .advance true, .advance true, .advance true, .finish true]

/-- The sweep removes the name after the next call has looked at the file. The call gets the lock, finds
the name gone, drops the file and goes on, when its budget has elapsed. -/
def retried : List (CallEvent Bool) :=
  first ++ [.begin true 10, .advance true, .advance true, .sweepExamine, .sweepOpen, .sweepTryLock,
    .sweepRemove, .sweepClose, .advance true, .advance true, .advance true, .tick 10]

def steps : List (CallEvent Bool) := List.replicate 6 (.advance true)

/-- The call returns with the lock of another file. -/
theorem capture_calls_ok_retried :
    ((empty.run retried).calls true).phase = .round ∧ (empty.run retried).CallOk true ∧
      (∃ past, past <+: steps ∧ ((empty.run retried).run past).CallOk true ∧
        ∃ result, (((empty.run retried).run past).calls true).phase = .returned result) ∧
      (((empty.run retried).run steps).calls true).phase = .returned (.held 1) := by
  have htimely : TimelyRun empty retried := by
    refine ⟨trivial, trivial, trivial, trivial, trivial, trivial, trivial, trivial, trivial, trivial, trivial,
      trivial, trivial, ?_, trivial, trivial, trivial, trivial, trivial, trivial⟩
    intro process file _ hopened
    cases process <;> cases hopened
  obtain ⟨hok, hreturns⟩ := capture_calls_ok quiet_empty retried htimely true
  refine ⟨rfl, hok, hreturns (.inl rfl) (Nat.le_refl 10) steps ?_ (Nat.le_refl 6), rfl⟩
  exact ⟨trivial, trivial, trivial, trivial, trivial, trivial, trivial⟩

/-- The sweep removes the name between the open of a call and its look. -/
def pruned : List (CallEvent Bool) :=
  first ++ [.begin true 10, .advance true, .sweepExamine, .sweepOpen, .sweepTryLock, .sweepRemove,
    .advance true]

/-- The call is told that the file is not a private one, at once. -/
theorem pruned_call_refused :
    empty.Quiet ∧ (empty.run pruned).clock = 0 ∧
      ((empty.run pruned).calls true).phase = .returned .invalidRequest ∧
      ¬(empty.run pruned).CallOk true :=
  ⟨quiet_empty, rfl, rfl, fun h => h⟩

end Sample

end CallWorld

end Tally.Executor
