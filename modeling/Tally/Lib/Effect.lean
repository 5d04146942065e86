import Mathlib.Control.Monad.Basic

/-!
# Computations that keep their state when they fail

`Eff ε σ α` is the monad of a method that takes its receiver by mutable reference and returns a
`Result`: an early exit leaves whatever was written to the state before it. `Eff.exec` runs a
computation, and `Eff.FailsWith` says what it can fail with from any state.
-/

namespace Tally

/-- Stateful computations with an error exit. The state survives the error. -/
abbrev Eff (ε σ α : Type) := ExceptT ε (StateM σ) α

namespace Eff

variable {ε σ α β : Type}

/-- The result and the final state of a computation. -/
def exec (x : Eff ε σ α) (s : σ) : Except ε α × σ := x.run.run s

@[simp] theorem exec_pure (a : α) (s : σ) : exec (pure a : Eff ε σ α) s = (.ok a, s) := rfl

@[simp] theorem exec_throw (e : ε) (s : σ) :
    exec (throw e : Eff ε σ α) s = (.error e, s) := rfl

@[simp] theorem exec_get (s : σ) : exec (get : Eff ε σ σ) s = (.ok s, s) := rfl

@[simp] theorem exec_set (s s' : σ) :
    exec (set s' : Eff ε σ PUnit) s = (.ok ⟨⟩, s') := rfl

@[simp] theorem exec_modify (f : σ → σ) (s : σ) :
    exec (modify f : Eff ε σ PUnit) s = (.ok ⟨⟩, f s) := rfl

theorem exec_bind (x : Eff ε σ α) (f : α → Eff ε σ β) (s : σ) :
    exec (x >>= f) s = match exec x s with
      | (.ok a, s') => exec (f a) s'
      | (.error e, s') => (.error e, s') := by
  have h : exec (x >>= f) s = (match (exec x s).1 with
      | .ok a => exec (f a) (exec x s).2
      | .error e => (.error e, (exec x s).2)) := by
    simp only [exec, ExceptT.run_bind, StateT.run_bind]
    show StateT.run (match (x.run.run s).1 with | .ok a => _ | .error e => _) _ = _
    cases (x.run.run s).1 <;> rfl
  rw [h]
  rcases exec x s with ⟨_ | _, s'⟩ <;> rfl

theorem exec_bind_ok {x : Eff ε σ α} {f : α → Eff ε σ β} {s s' : σ} {a : α}
    (h : exec x s = (.ok a, s')) : exec (x >>= f) s = exec (f a) s' := by
  rw [exec_bind, h]

theorem exec_bind_error {x : Eff ε σ α} {f : α → Eff ε σ β} {s s' : σ} {e : ε}
    (h : exec x s = (.error e, s')) : exec (x >>= f) s = (.error e, s') := by
  rw [exec_bind, h]

/-- A sequential composition either fails in its first part or runs the second. -/
theorem exec_bind_cases {x : Eff ε σ α} {f : α → Eff ε σ β} {s s' : σ} {r : Except ε β}
    (h : exec (x >>= f) s = (r, s')) :
    (∃ a s₁, exec x s = (.ok a, s₁) ∧ exec (f a) s₁ = (r, s')) ∨
      ∃ e, exec x s = (.error e, s') ∧ r = .error e := by
  rw [exec_bind] at h
  rcases hx : exec x s with ⟨e | a, s₁⟩
  · rw [hx] at h
    cases h
    exact .inr ⟨e, rfl, rfl⟩
  · rw [hx] at h
    exact .inl ⟨a, s₁, rfl, h⟩

theorem exec_eq_of_fst {x : Eff ε σ α} {s : σ} {r : Except ε α} (h : (exec x s).1 = r) :
    exec x s = (r, (exec x s).2) := by
  rw [← h]

/-! ## The errors of a computation -/

/-- Whatever `x` fails with is of this kind. -/
def FailsWith (P : ε → Prop) (x : Eff ε σ α) : Prop := ∀ s e s', exec x s = (.error e, s') → P e

variable {P : ε → Prop}

theorem failsWith_pure {a : α} : FailsWith P (pure a : Eff ε σ α) := fun _ _ _ h => nomatch h

theorem failsWith_throw {e : ε} (h : P e) : FailsWith P (throw e : Eff ε σ α) := by
  intro s e' s' hexec
  cases hexec
  exact h

theorem failsWith_get : FailsWith P (get : Eff ε σ σ) := fun _ _ _ h => nomatch h

theorem failsWith_set {s : σ} : FailsWith P (set s : Eff ε σ PUnit) := fun _ _ _ h => nomatch h

theorem failsWith_modify {f : σ → σ} : FailsWith P (modify f : Eff ε σ PUnit) :=
  fun _ _ _ h => nomatch h

theorem FailsWith.bind {x : Eff ε σ α} {f : α → Eff ε σ β} (hx : FailsWith P x)
    (hf : ∀ a, FailsWith P (f a)) : FailsWith P (x >>= f) := by
  intro s e s' h
  rcases exec_bind_cases h with ⟨a, mid, -, hrest⟩ | ⟨error, herror, heq⟩
  · exact hf a mid e s' hrest
  · cases heq
    exact hx s e s' herror

end Eff

end Tally
