import Tally.Lib.Effect
import Tally.Lib.Result

/-!
# What a computation keeps and what it returns

`Eff.Preserves view x` says that `x` leaves a part of the state as it is, whether it fails or not, and
`Eff.Returns Q x` what it returns. Both are shown piece by piece, along the binds of the computation.
-/

namespace Tally.Eff

variable {ε σ α β γ : Type}

/-- A step that does not touch the state. -/
def ofExcept (result : Except ε α) : Eff ε σ α := ExceptT.mk (pure result)

@[simp] theorem exec_ofExcept (result : Except ε α) (s : σ) :
    exec (ofExcept result : Eff ε σ α) s = (result, s) := rfl

/-- Go on if the condition holds. -/
def require (condition : Prop) [Decidable condition] (error : ε) : Eff ε σ Unit :=
  ofExcept (ensure condition error)

theorem exec_require_bind {condition : Prop} [Decidable condition] {error : ε} {next : Unit → Eff ε σ β}
    {s : σ} : exec (require condition error >>= next) s =
      if condition then exec (next ()) s else (.error error, s) := by
  rw [exec_bind, require, exec_ofExcept]
  by_cases h : condition
  · rw [ensure, if_pos h, if_pos h]
  · rw [ensure, if_neg h, if_neg h]

theorem exec_get_bind {next : σ → Eff ε σ β} {s : σ} : exec (get >>= next) s = exec (next s) s := rfl

theorem exec_set_bind {s s' : σ} {next : PUnit → Eff ε σ β} :
    exec (set s' >>= next) s = exec (next ⟨⟩) s' := rfl

theorem exec_ofExcept_bind {result : Except ε α} {next : α → Eff ε σ β} {s : σ} :
    exec (ofExcept result >>= next) s = match result with
      | .ok a => exec (next a) s
      | .error e => (.error e, s) := by
  rw [exec_bind, exec_ofExcept]
  cases result <;> rfl

/-! ## Parts of the state -/

def Preserves (view : σ → γ) (x : Eff ε σ α) : Prop := ∀ s, view (exec x s).2 = view s

namespace Preserves

variable {view : σ → γ}

theorem pure (a : α) : Preserves view (pure a : Eff ε σ α) := fun _ => rfl

theorem throw (e : ε) : Preserves view (throw e : Eff ε σ α) := fun _ => rfl

theorem ofExcept (result : Except ε α) : Preserves view (ofExcept result : Eff ε σ α) := fun _ => rfl

theorem bind {x : Eff ε σ α} {f : α → Eff ε σ β} (hx : Preserves view x)
    (hf : ∀ a, Preserves view (f a)) : Preserves view (x >>= f) := by
  intro s
  have hstep := hx s
  rw [exec_bind]
  rcases hexec : exec x s with ⟨e | a, s'⟩
  · rwa [hexec] at hstep
  · rw [hexec] at hstep
    exact (hf a s').trans hstep

theorem get_bind {f : σ → Eff ε σ β} (hf : ∀ s, view (exec (f s) s).2 = view s) :
    Preserves view (get >>= f) := hf

theorem forM {items : List α} {step : α → Eff ε σ PUnit} (hstep : ∀ a, Preserves view (step a)) :
    Preserves view (items.forM step) := by
  induction items with
  | nil => exact pure _
  | cons a items ih => exact (hstep a).bind fun _ => ih

end Preserves

/-! ## Results -/

def Returns (Q : α → Prop) (x : Eff ε σ α) : Prop := ∀ s a s', exec x s = (.ok a, s') → Q a

namespace Returns

variable {Q : β → Prop}

theorem pure {b : β} (h : Q b) : Returns Q (pure b : Eff ε σ β) := by
  intro s b' s' hexec
  cases hexec
  exact h

theorem throw (e : ε) : Returns Q (throw e : Eff ε σ β) := fun _ _ _ h => (nomatch h)

theorem bind {x : Eff ε σ α} {f : α → Eff ε σ β} (hf : ∀ a, Returns Q (f a)) :
    Returns Q (x >>= f) := by
  intro s b s' h
  rcases exec_bind_cases h with ⟨a, mid, -, hrest⟩ | ⟨e, -, heq⟩
  · exact hf a mid b s' hrest
  · cases heq

end Returns

/-! ## Errors from some states -/

/-- From a state of the kind `I`, what `x` fails with is of the kind `P`. -/
def FailsFrom (I : σ → Prop) (P : ε → Prop) (x : Eff ε σ α) : Prop :=
  ∀ s, I s → ∀ e s', exec x s = (.error e, s') → P e

namespace FailsFrom

variable {I J : σ → Prop} {P : ε → Prop}

theorem pure (a : α) : FailsFrom I P (pure a : Eff ε σ α) := fun _ _ _ _ h => (nomatch h)

theorem throw {e : ε} (h : P e) : FailsFrom I P (throw e : Eff ε σ α) := by
  intro s _ e' s' hexec
  cases hexec
  exact h

theorem ofExcept {result : Except ε α} (h : ∀ e, result = .error e → P e) :
    FailsFrom I P (ofExcept result : Eff ε σ α) := by
  intro s _ e s' hexec
  rw [exec_ofExcept, Prod.mk.injEq] at hexec
  exact h e hexec.1

theorem bind {x : Eff ε σ α} {f : α → Eff ε σ β} (hx : FailsFrom I P x)
    (hkeep : ∀ s, I s → J (exec x s).2) (hf : ∀ a, FailsFrom J P (f a)) : FailsFrom I P (x >>= f) := by
  intro s hs e s' h
  have hmid := hkeep s hs
  rcases exec_bind_cases h with ⟨a, mid, hexec, hrest⟩ | ⟨error, herror, heq⟩
  · rw [hexec] at hmid
    exact hf a mid hmid e s' hrest
  · cases heq
    exact hx s hs e s' herror

theorem get_bind {f : σ → Eff ε σ β}
    (hf : ∀ s, I s → ∀ e s', exec (f s) s = (.error e, s') → P e) : FailsFrom I P (get >>= f) := hf

theorem forM {items : List α} {step : α → Eff ε σ PUnit} (hkeep : ∀ a s, I s → I (exec (step a) s).2)
    (hstep : ∀ a, FailsFrom I P (step a)) : FailsFrom I P (items.forM step) := by
  induction items with
  | nil => exact pure _
  | cons a items ih => exact (hstep a).bind (hkeep a) fun _ => ih

end FailsFrom

end Tally.Eff
