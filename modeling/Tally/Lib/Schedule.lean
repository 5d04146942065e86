import Mathlib.Data.List.Basic
import Mathlib.Data.List.Infix
import Mathlib.Data.Finset.Card

/-!
# Schedules of a graph of tasks

Tasks in a list, each with an identity and the identities it waits for. A scheduler starts a task once
everything it waits for is finished, and what has started may finish at any time. When every task waits
for tasks before it only, no schedule ends before every task has started (`started_of_stuck`), and
every schedule ends (`length_le`).
-/

namespace Tally.Lib

variable {T Id : Type} (id : T → Id) (deps : T → List Id)

/-- Every task waits for tasks before it in the list only. -/
def WaitsForEarlier (tasks : List T) : Prop :=
  ∀ before task after, tasks = before ++ task :: after → ∀ dep ∈ deps task, dep ∈ before.map id

namespace Schedule

structure State (Id : Type) where
  started : List Id
  finished : List Id

def initial : State Id := ⟨[], []⟩

/-- What a scheduler may do next. -/
inductive Step (tasks : List T) : State Id → State Id → Prop
  | start {s : State Id} {task : T} (hmem : task ∈ tasks) (hnew : id task ∉ s.started)
      (hready : ∀ dep ∈ deps task, dep ∈ s.finished) :
      Step tasks s { s with started := id task :: s.started }
  | finish {s : State Id} {x : Id} (hstarted : x ∈ s.started) (hnew : x ∉ s.finished) :
      Step tasks s { s with finished := x :: s.finished }

/-- The schedules of that many steps, and where they end. -/
inductive Run (tasks : List T) : Nat → State Id → Prop
  | nil : Run tasks 0 initial
  | cons {n : Nat} {s t : State Id} : Run tasks n s → Step id deps tasks s t → Run tasks (n + 1) t

def Stuck (tasks : List T) (s : State Id) : Prop := ∀ t, ¬ Step id deps tasks s t

/-- What holds on the way: nothing starts or finishes twice, only tasks start, and only what has
started finishes. -/
structure Sound (tasks : List T) (n : Nat) (s : State Id) : Prop where
  steps : n = s.started.length + s.finished.length
  started : s.started.Nodup
  finished : s.finished.Nodup
  known : ∀ x ∈ s.started, x ∈ tasks.map id
  order : ∀ x ∈ s.finished, x ∈ s.started

variable {id deps} {tasks : List T} {n : Nat} {s : State Id}

theorem Run.sound (h : Run id deps tasks n s) : Sound id tasks n s := by
  induction h with
  | nil => exact ⟨rfl, List.nodup_nil, List.nodup_nil, fun _ h => (nomatch h), fun _ h => (nomatch h)⟩
  | @cons n s t _ hstep ih =>
    cases hstep with
    | @start task hmem hnew _ =>
      refine ⟨?_, List.nodup_cons.mpr ⟨hnew, ih.started⟩, ih.finished, ?_, ?_⟩
      · simp only [ih.steps, List.length_cons]
        omega
      · intro x hx
        rcases List.mem_cons.mp hx with rfl | hx
        · exact List.mem_map_of_mem hmem
        · exact ih.known x hx
      · exact fun x hx => List.mem_cons_of_mem _ (ih.order x hx)
    | @finish x hstarted hnew =>
      refine ⟨?_, ih.started, List.nodup_cons.mpr ⟨hnew, ih.finished⟩, ih.known, ?_⟩
      · simp only [ih.steps, List.length_cons]
        omega
      · intro y hy
        rcases List.mem_cons.mp hy with rfl | hy
        · exact hstarted
        · exact ih.order y hy

/-- Every schedule ends. -/
theorem length_le (h : Run id deps tasks n s) : n ≤ 2 * tasks.length := by
  have hsound := h.sound
  have hstarted : s.started.length ≤ (tasks.map id).length :=
    (List.subperm_of_subset hsound.started hsound.known).length_le
  have hfinished : s.finished.length ≤ (tasks.map id).length :=
    (List.subperm_of_subset hsound.finished fun x hx =>
      hsound.known x (hsound.order x hx)).length_le
  rw [List.length_map] at hstarted hfinished
  have hsteps := hsound.steps
  omega

/-- A schedule that cannot go on has finished what it started. -/
theorem finished_of_stuck (hstuck : Stuck id deps tasks s) {x : Id} (hx : x ∈ s.started) :
    x ∈ s.finished := by
  by_contra hnew
  exact hstuck _ (.finish hx hnew)

/-- A schedule that cannot go on has started every task. -/
theorem started_of_stuck (horder : WaitsForEarlier id deps tasks) (hstuck : Stuck id deps tasks s) :
    ∀ task ∈ tasks, id task ∈ s.started := by
  have hpre : ∀ before after, tasks = before ++ after → ∀ task ∈ before, id task ∈ s.started := by
    intro before
    induction before using List.reverseRecOn with
    | nil => exact fun _ _ _ h => nomatch h
    | append_singleton before task ih =>
      intro after htasks other hother
      have hsplit : tasks = before ++ task :: after := by rw [htasks, List.append_assoc]; rfl
      rcases List.mem_append.mp hother with hother | hother
      · exact ih (task :: after) hsplit other hother
      rw [List.mem_singleton.mp hother]
      by_contra hnew
      refine hstuck _ (.start ?_ hnew ?_)
      · rw [hsplit]
        exact List.mem_append_right _ (List.mem_cons_self ..)
      · intro dep hdep
        obtain ⟨earlier, hearlier, rfl⟩ := List.mem_map.mp (horder before task after hsplit dep hdep)
        exact finished_of_stuck hstuck (ih (task :: after) hsplit earlier hearlier)
  exact hpre tasks [] (List.append_nil tasks).symm

end Schedule

end Tally.Lib
