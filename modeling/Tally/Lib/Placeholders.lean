import Mathlib.Data.List.Basic
import Mathlib.Data.List.Infix

/-!
# Texts with placeholders

A text is taken apart at the first place of a pattern, at all of them, or at its placeholders, which
are names between two marks. What is put in for a name is not looked at again, so two ways to fill a
text that has a placeholder give the same result only if they put in the same (`eq_of_expand_eq`).
-/

namespace Tally.Lib

variable {α : Type} [DecidableEq α]

/-! ## The first place of a pattern -/

/-- `str::find`: what stands before the first place of a pattern, and after it. -/
def breakAt (pattern : List α) : List α → Option (List α × List α)
  | [] => if pattern = [] then some ([], []) else none
  | a :: text =>
    if pattern <+: a :: text then some ([], (a :: text).drop pattern.length)
    else (breakAt pattern text).map fun (before, after) => (a :: before, after)

theorem breakAt_eq {pattern text before after : List α} (h : breakAt pattern text = some (before, after)) :
    text = before ++ (pattern ++ after) := by
  induction text generalizing before with
  | nil =>
    rw [breakAt] at h
    split at h
    · next hpattern =>
      cases h
      rw [hpattern]
      rfl
    · cases h
  | cons a text ih =>
    rw [breakAt] at h
    split at h
    · next hprefix =>
      cases h
      exact (List.prefix_iff_eq_append.mp hprefix).symm
    · obtain ⟨⟨front, rest⟩, hrest, heq⟩ := Option.map_eq_some_iff.mp h
      cases heq
      rw [ih hrest]
      rfl

/-- The pieces of a text between the places of a pattern, from the left. -/
def betweenFuel (pattern : List α) : Nat → List α → List (List α)
  | 0, text => [text]
  | fuel + 1, text =>
    match breakAt pattern text with
    | none => [text]
    | some (before, after) => before :: betweenFuel pattern fuel after

def between (pattern text : List α) : List (List α) := betweenFuel pattern text.length text

/-- `str::replace`. -/
def replaceAll (pattern value text : List α) : List α := value.intercalate (between pattern text)

/-! ## Placeholders -/

inductive Segment (α : Type)
  | plain (text : List α)
  | hole (name : List α)
  deriving DecidableEq

/-- The segments of a text, if all of its placeholders are closed and have names that are allowed. -/
def segmentsFuel (opening closing : List α) (allowed : List α → Bool) :
    Nat → List α → Option (List (Segment α))
  | 0, text => some [.plain text]
  | fuel + 1, text =>
    match breakAt opening text with
    | none => some [.plain text]
    | some (before, rest) =>
      match breakAt closing rest with
      | none => none
      | some (name, rest) =>
        if allowed name then
          (segmentsFuel opening closing allowed fuel rest).map fun segments =>
            .plain before :: .hole name :: segments
        else none

/-- The text that is put in for each name. -/
def Segment.fill (values : List α → List α) : Segment α → List α
  | plain text => text
  | hole name => values name

def expand (values : List α → List α) (segments : List (Segment α)) : List α :=
  segments.flatMap (Segment.fill values)

section

variable {values others : List α → List α} {segments : List (Segment α)} {name : List α}

omit [DecidableEq α] in
theorem expand_congr (h : ∀ name, Segment.hole name ∈ segments → values name = others name) :
    expand values segments = expand others segments := by
  refine List.flatMap_congr fun segment hsegment => ?_
  cases segment with
  | plain text => rfl
  | hole name => exact h name hsegment

/-- A placeholder stands in the text with its marks. -/
theorem hole_mem_infix {opening closing : List α} {allowed : List α → Bool} {fuel : Nat} {text : List α}
    (h : segmentsFuel opening closing allowed fuel text = some segments)
    (hmem : Segment.hole name ∈ segments) : opening ++ (name ++ closing) <:+: text := by
  induction fuel generalizing text segments with
  | zero =>
    cases h
    cases List.mem_singleton.mp hmem
  | succ fuel ih =>
    rw [segmentsFuel] at h
    split at h
    · cases h
      cases List.mem_singleton.mp hmem
    · next before rest hopen =>
      split at h
      · cases h
      · next found after hclose =>
        split at h
        · obtain ⟨more, hmore, rfl⟩ := Option.map_eq_some_iff.mp h
          rw [breakAt_eq hopen, breakAt_eq hclose]
          rcases List.mem_cons.mp hmem with hfirst | hmem
          · cases hfirst
          rcases List.mem_cons.mp hmem with hfirst | hmem
          · cases hfirst
            exact ⟨before, after, by simp only [List.append_assoc]⟩
          · obtain ⟨front, back, htext⟩ := ih hmore hmem
            refine ⟨before ++ (opening ++ (found ++ (closing ++ front))), back, ?_⟩
            rw [← htext]
            simp only [List.append_assoc]
        · cases h

omit [DecidableEq α] in
/-- How long a text becomes with another value for one name. -/
theorem length_expand_add (hothers : ∀ other, other ≠ name → values other = others other) (n : Nat)
    (hlength : (values name).length = (others name).length + n) (segments : List (Segment α)) :
    (expand values segments).length ≥ (expand others segments).length ∧
      (Segment.hole name ∈ segments →
        (expand others segments).length + n ≤ (expand values segments).length) := by
  induction segments with
  | nil => exact ⟨Nat.le_refl _, nofun⟩
  | cons segment segments ih =>
    rw [expand, expand, List.flatMap_cons, List.flatMap_cons, List.length_append, List.length_append]
    have hfirst : (segment.fill values).length ≥ (segment.fill others).length := by
      cases segment with
      | plain text => exact Nat.le_refl _
      | hole other =>
        rcases eq_or_ne other name with rfl | hne
        · exact hlength.symm ▸ Nat.le_add_right _ n
        · exact Nat.le_of_eq (congrArg List.length (hothers other hne)).symm
    refine ⟨Nat.add_le_add hfirst ih.1, fun hmem => ?_⟩
    rcases List.mem_cons.mp hmem with rfl | hmem
    · have hname : (Segment.fill values (.hole name)).length =
          (Segment.fill others (.hole name)).length + n := hlength
      have := ih.1
      rw [expand, expand] at this
      omega
    · have := ih.2 hmem
      rw [expand, expand] at this
      omega

omit [DecidableEq α] in
theorem eq_of_expand_eq_of_length (hothers : ∀ other, other ≠ name → values other = others other)
    (hlength : (values name).length = (others name).length)
    (h : expand values segments = expand others segments) (hmem : Segment.hole name ∈ segments) :
    values name = others name := by
  have hfill : ∀ segment : Segment α,
      (segment.fill values).length = (segment.fill others).length := by
    intro segment
    cases segment with
    | plain text => rfl
    | hole other =>
      rcases eq_or_ne other name with rfl | hne
      · exact hlength
      · exact congrArg List.length (hothers other hne)
  induction segments with
  | nil => cases hmem
  | cons segment segments ih =>
    rw [expand, expand, List.flatMap_cons, List.flatMap_cons] at h
    obtain ⟨hfirst, hrest⟩ := List.append_inj h (hfill segment)
    rcases List.mem_cons.mp hmem with rfl | hmem
    · exact hfirst
    · exact ih hrest hmem

omit [DecidableEq α] in
/-- A text with a placeholder tells what was put in for it. -/
theorem eq_of_expand_eq (hothers : ∀ other, other ≠ name → values other = others other)
    (h : expand values segments = expand others segments) (hmem : Segment.hole name ∈ segments) :
    values name = others name := by
  apply eq_of_expand_eq_of_length hothers ?_ h hmem
  rcases Nat.le_total (values name).length (others name).length with hle | hle
  · have hbound := (length_expand_add (fun other hne => (hothers other hne).symm)
      ((others name).length - (values name).length) (by omega) segments).2 hmem
    rw [h] at hbound
    omega
  · have hbound := (length_expand_add hothers
      ((values name).length - (others name).length) (by omega) segments).2 hmem
    rw [h] at hbound
    omega

end

end Tally.Lib
