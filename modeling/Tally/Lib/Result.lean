import Mathlib.Control.Basic
import Mathlib.Data.List.Forall2

/-!
# Results with early exits

Straight-line code that returns a `Result`: guards are `ensure`, calls are binds, loops are
`foldlM` and `forM`. Each has an equation for the successful exit, so that a proof about a function
that returned peels it apart, and a proof that it returns puts it together.
-/

namespace Tally

variable {ε α β : Type}

/-- Go on if the condition holds. -/
def ensure (condition : Prop) [Decidable condition] (error : ε) : Except ε Unit :=
  if condition then .ok () else .error error

@[simp] theorem ensure_eq_ok {condition : Prop} [Decidable condition] {error : ε} {u : Unit} :
    ensure condition error = .ok u ↔ condition := by
  unfold ensure
  split <;> simp [*]

/-- The value, or the error. -/
def orError (value : Option α) (error : ε) : Except ε α :=
  match value with
  | none => .error error
  | some value => .ok value

@[simp] theorem orError_eq_ok {value : Option α} {error : ε} {a : α} :
    orError value error = .ok a ↔ value = some a := by
  cases value <;> simp [orError]

theorem bind_ok_iff {x : Except ε α} {next : α → Except ε β} {result : β} :
    x >>= next = .ok result ↔ ∃ value, x = .ok value ∧ next value = .ok result := by
  rcases x with error | value
  · exact ⟨fun h => (nomatch h), fun ⟨_, h, _⟩ => (nomatch h)⟩
  · exact ⟨fun h => ⟨value, rfl, h⟩, fun ⟨_, h, hnext⟩ => by cases h; exact hnext⟩

/-- A guard and what follows it. -/
@[simp] theorem ensure_bind_ok_iff {condition : Prop} [Decidable condition] {error : ε}
    {next : Unit → Except ε β} {result : β} :
    ensure condition error >>= next = .ok result ↔ condition ∧ next () = .ok result := by
  rw [bind_ok_iff]
  exact ⟨fun ⟨_, h, hnext⟩ => ⟨ensure_eq_ok.mp h, hnext⟩,
    fun ⟨h, hnext⟩ => ⟨(), ensure_eq_ok.mpr h, hnext⟩⟩

/-- A lookup and what follows it. -/
@[simp] theorem orError_bind_ok_iff {value : Option α} {error : ε} {next : α → Except ε β}
    {result : β} :
    orError value error >>= next = .ok result ↔ ∃ a, value = some a ∧ next a = .ok result := by
  rw [bind_ok_iff]
  simp only [orError_eq_ok]

@[simp] theorem mapError_eq_ok {ε' : Type} {f : ε → ε'} {result : Except ε α} {a : α} :
    result.mapError f = .ok a ↔ result = .ok a := by
  cases result <;> simp [Except.mapError]

theorem map_eq_ok {f : α → β} {result : Except ε α} {b : β} :
    result.map f = .ok b ↔ ∃ a, result = .ok a ∧ f a = b := by
  cases result <;> simp [Except.map]

/-- A step that returns nothing. -/
theorem unit_bind_ok_iff {step : Except ε Unit} {next : Unit → Except ε β} {result : β} :
    step >>= next = .ok result ↔ step = .ok () ∧ next () = .ok result := by
  rw [bind_ok_iff]
  exact ⟨fun ⟨_, h, hnext⟩ => ⟨h, hnext⟩, fun ⟨h, hnext⟩ => ⟨(), h, hnext⟩⟩

/-! ## Loops -/

theorem forM_eq_ok {items : List α} {step : α → Except ε Unit} :
    items.forM step = .ok () ↔ ∀ item ∈ items, step item = .ok () := by
  induction items with
  | nil => exact ⟨fun _ _ h => (nomatch h), fun _ => rfl⟩
  | cons item items ih =>
    rw [List.forM, bind_ok_iff, List.forall_mem_cons, ← ih]
    exact ⟨fun ⟨_, h, hrest⟩ => ⟨h, hrest⟩, fun ⟨h, hrest⟩ => ⟨(), h, hrest⟩⟩

theorem mapM_eq_map {step : α → Except ε β} {image : α → β} {items : List α} {results : List β}
    (hstep : ∀ a b, step a = .ok b → b = image a) (h : items.mapM step = .ok results) :
    results = items.map image := by
  induction items generalizing results with
  | nil =>
    cases h
    rfl
  | cons a items ih =>
    rw [List.mapM_cons] at h
    obtain ⟨b, hb, h⟩ := bind_ok_iff.mp h
    obtain ⟨rest, hrest, h⟩ := bind_ok_iff.mp h
    cases h
    rw [hstep a b hb, ih hrest, List.map_cons]

theorem mapM_step_ok {step : α → Except ε β} {items : List α} {results : List β}
    (h : items.mapM step = .ok results) {a : α} (ha : a ∈ items) : ∃ b, step a = .ok b := by
  induction items generalizing results with
  | nil => cases ha
  | cons first items ih =>
    rw [List.mapM_cons] at h
    obtain ⟨b, hb, h⟩ := bind_ok_iff.mp h
    obtain ⟨rest, hrest, -⟩ := bind_ok_iff.mp h
    rcases List.mem_cons.mp ha with rfl | ha
    · exact ⟨b, hb⟩
    · exact ih hrest ha

theorem foldlM_cons_ok_iff {step : β → α → Except ε β} {a : α} {rest : List α} {start result : β} :
    (a :: rest).foldlM step start = .ok result ↔
      ∃ next, step start a = .ok next ∧ rest.foldlM step next = .ok result := by
  rw [List.foldlM_cons, bind_ok_iff]

/-- A loop that returned has run each round to its end. -/
theorem round_of_foldlM {step : β → α → Except ε β} {items : List α} {start result : β}
    (h : items.foldlM step start = .ok result) {a : α} (ha : a ∈ items) :
    ∃ before after, step before a = .ok after := by
  induction items generalizing start with
  | nil => cases ha
  | cons item rest ih =>
    obtain ⟨next, hstep, hrest⟩ := foldlM_cons_ok_iff.mp h
    rcases List.mem_cons.mp ha with rfl | ha
    · exact ⟨start, next, hstep⟩
    · exact ih hrest ha

/-- What each round of a loop does, in order: it has an output, which is added to what is seen of
the state. -/
theorem foldlM_rounds {σ γ : Type} {step : β → α → Except ε β} {Round : α → γ → Prop}
    (view : β → σ) (add : σ → γ → σ) {items : List α} {start result : β}
    (hround : ∀ a ∈ items, ∀ before after, step before a = .ok after →
      ∃ out, Round a out ∧ view after = add (view before) out)
    (h : items.foldlM step start = .ok result) :
    ∃ outs, List.Forall₂ Round items outs ∧ view result = outs.foldl add (view start) := by
  induction items generalizing start with
  | nil =>
    cases h
    exact ⟨[], .nil, rfl⟩
  | cons item rest ih =>
    obtain ⟨next, hstep, hrest⟩ := foldlM_cons_ok_iff.mp h
    obtain ⟨out, hout, hnext⟩ := hround item List.mem_cons_self start next hstep
    obtain ⟨outs, houts, hresult⟩ :=
      ih (fun a ha => hround a (List.mem_cons_of_mem _ ha)) hrest
    refine ⟨out :: outs, .cons hout houts, ?_⟩
    rw [hresult, hnext, List.foldl_cons]

section Rounds

variable {γ δ κ : Type} {Round : α → γ → Prop} {items : List α} {outs : List γ}

theorem exists_round (h : List.Forall₂ Round items outs) {a : α} (ha : a ∈ items) :
    ∃ out ∈ outs, Round a out := by
  induction h with
  | nil => cases ha
  | @cons item out rest outs hround _ ih =>
    rcases List.mem_cons.mp ha with rfl | ha
    · exact ⟨out, List.mem_cons_self, hround⟩
    · obtain ⟨found, hfound, hpair⟩ := ih ha
      exact ⟨found, List.mem_cons_of_mem _ hfound, hpair⟩

theorem exists_item (h : List.Forall₂ Round items outs) {out : γ} (hout : out ∈ outs) :
    ∃ a ∈ items, Round a out := by
  have hflip : List.Forall₂ (flip Round) outs items := .flip h
  exact exists_round hflip hout

/-- The keys of the outputs are the keys of the items. -/
theorem map_key_of_rounds (h : List.Forall₂ Round items outs) {key : α → κ} {tag : γ → κ}
    (htag : ∀ a out, Round a out → tag out = key a) : outs.map tag = items.map key := by
  induction h with
  | nil => rfl
  | cons hround _ ih => rw [List.map_cons, List.map_cons, ih, htag _ _ hround]

/-- With distinct keys, an output is the only one under its key. -/
theorem filter_key [DecidableEq κ] (tag : γ → κ) (hkeys : (outs.map tag).Nodup) {out : γ}
    (hout : out ∈ outs) : outs.filter (fun other => tag other = tag out) = [out] := by
  induction outs with
  | nil => cases hout
  | cons first rest ih =>
    rw [List.map_cons, List.nodup_cons] at hkeys
    rw [List.filter_cons]
    rcases List.mem_cons.mp hout with rfl | hout
    · rw [if_pos (decide_eq_true rfl), List.filter_eq_nil_iff.mpr]
      intro other hother hsame
      exact hkeys.1 (List.mem_map.mpr ⟨other, hother, of_decide_eq_true hsame⟩)
    · rw [if_neg, ih hkeys.2 hout]
      intro hsame
      exact hkeys.1 (List.mem_map.mpr ⟨out, hout, (of_decide_eq_true hsame).symm⟩)

/-- What is filed under a key comes from the outputs under that key. -/
theorem filter_flatMap_key [DecidableEq κ] (tag : γ → κ) (file : γ → List δ) (label : δ → κ)
    (hlabel : ∀ out ∈ outs, ∀ d ∈ file out, label d = tag out) (key : κ) :
    (outs.flatMap file).filter (fun d => label d = key) =
      (outs.filter fun out => tag out = key).flatMap file := by
  induction outs with
  | nil => rfl
  | cons first rest ih =>
    have hfirst := hlabel first List.mem_cons_self
    rw [List.flatMap_cons, List.filter_append, List.filter_cons,
      ih fun out hout => hlabel out (List.mem_cons_of_mem _ hout)]
    split
    next hkey =>
      rw [List.flatMap_cons, List.filter_eq_self.mpr]
      intro d hd
      rw [hfirst d hd]
      exact hkey
    next hkey =>
      rw [List.filter_eq_nil_iff.mpr, List.nil_append]
      intro d hd
      rw [hfirst d hd]
      exact hkey

end Rounds

end Tally
