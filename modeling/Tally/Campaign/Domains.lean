import Tally.Campaign.Contract

/-!
# Conflict domains

The domains that `validate_conflict_domains` (`campaign_contract.rs`) accepts. It looks at the components
of a path, and the library drops empty components and single dots on the way; it compares the texts.
So a repeated separator or a dot inside is accepted, and the same path in two spellings counts as two.
-/

namespace Tally.Campaign

/-! ## Components of a path -/

/-- `std::path::Component`, on Unix. -/
inductive Component
  | rootDir
  | curDir
  | parentDir
  | normal (name : List Char)
  deriving DecidableEq

def Component.text : Component → List Char
  | rootDir => []
  | curDir => ['.']
  | parentDir => ['.', '.']
  | normal name => name

def pieceComponent (piece : List Char) : Component :=
  if piece = ['.', '.'] then .parentDir else .normal piece

/-- A piece that `Path::components` passes over, unless it is a dot in front. -/
def isDropped (piece : List Char) : Bool := piece = [] ∨ piece = ['.']

/-- `Path::components`. -/
def components (path : List Char) : List Component :=
  let pieces := path.splitOn '/'
  let start : List Component :=
    if path.head? = some '/' then [.rootDir]
    else if pieces.head? = some ['.'] then [.curDir]
    else []
  start ++ (pieces.filter fun piece => !isDropped piece).map pieceComponent

/-- The texts of components with separators between them. -/
def joined (components : List Component) : List Char := ['/'].intercalate (components.map (·.text))

/-- A text that says each component of its path and nothing else. -/
structure NormalDomain (domain : String) : Prop where
  joined : joined (components domain.toList) = domain.toList
  pieces : ∀ piece ∈ domain.toList.splitOn '/', piece ≠ [] ∧ piece ≠ ['.'] ∧ piece ≠ ['.', '.']

/-- Domains in normal form: two of them are never the same path. -/
structure NormalDomains (domains : List String) : Prop where
  each : ∀ domain ∈ domains, NormalDomain domain
  distinct : ∀ a ∈ domains, ∀ b ∈ domains, a ≠ b → components a.toList ≠ components b.toList

/-- A separator is repeated, or a dot follows one and nothing else up to the next. -/
def Loose (domain : List Char) : Prop :=
  ['/', '/'] <:+: domain ∨ ['/', '.', '/'] <:+: domain ∨ ['/', '.'] <:+ domain

instance : DecidablePred Loose := fun domain =>
  inferInstanceAs (Decidable (['/', '/'] <:+: domain ∨ ['/', '.', '/'] <:+: domain ∨
    ['/', '.'] <:+ domain))

/-! ## Where a piece stands -/

section Pieces

variable {α : Type} {sep : α} {piece : List α}

/-- A piece is the text, or it is in front, at the end or between two separators. -/
theorem mem_intercalate (sep : α) {pieces : List (List α)} (h : piece ∈ pieces) :
    [sep].intercalate pieces = piece ∨ piece ++ [sep] <+: [sep].intercalate pieces ∨
      sep :: piece <:+ [sep].intercalate pieces ∨
      sep :: (piece ++ [sep]) <:+: [sep].intercalate pieces := by
  induction pieces with
  | nil => cases h
  | cons first rest ih =>
    cases rest with
    | nil =>
      obtain rfl := List.mem_singleton.mp h
      exact .inl (by simp)
    | cons second rest =>
      have htext : [sep].intercalate (first :: second :: rest) =
          first ++ sep :: [sep].intercalate (second :: rest) := by
        rw [List.intercalate_cons_of_ne_nil (List.cons_ne_nil _ _)]
        simp
      rw [htext]
      rcases List.mem_cons.mp h with rfl | h
      · exact .inr (.inl ⟨[sep].intercalate (second :: rest), by simp⟩)
      · rcases ih h with hwhole | ⟨after, hfront⟩ | hend | hwithin
        · rw [hwhole]
          exact .inr (.inr (.inl (List.suffix_append first _)))
        · rw [← hfront]
          exact .inr (.inr (.inr ⟨first, after, by simp⟩))
        · exact .inr (.inr (.inl (hend.trans ((List.suffix_cons _ _).trans (List.suffix_append _ _)))))
        · refine .inr (.inr (.inr (hwithin.trans ?_)))
          exact ((List.suffix_cons _ _).trans (List.suffix_append _ _)).isInfix

variable [DecidableEq α]

theorem mem_splitOn_of_between {text : List α} (hpiece : sep ∉ piece)
    (h : sep :: (piece ++ [sep]) <:+: text) : piece ∈ text.splitOn sep := by
  obtain ⟨before, after, rfl⟩ := h
  have htext : before ++ sep :: (piece ++ [sep]) ++ after = before ++ sep :: (piece ++ sep :: after) := by
    simp
  rw [htext, List.splitOn_append_cons_self, List.splitOn_append_cons_self_of_not_mem hpiece]
  simp

theorem mem_splitOn_of_suffix {text : List α} (hpiece : sep ∉ piece) (h : sep :: piece <:+ text) :
    piece ∈ text.splitOn sep := by
  obtain ⟨before, rfl⟩ := h
  rw [List.splitOn_append_cons_self, List.splitOn_eq_singleton hpiece]
  simp

end Pieces

/-! ## What is accepted -/

section Accepted

variable {domain : String}

theorem parentDir_mem_components {path : List Char} :
    Component.parentDir ∈ components path ↔ ['.', '.'] ∈ path.splitOn '/' := by
  have hstart (start : List Component) (h : Component.parentDir ∉ start) (rest : List Component) :
      Component.parentDir ∈ start ++ rest ↔ Component.parentDir ∈ rest := by
    simp [h]
  have hrest : Component.parentDir ∈ ((path.splitOn '/').filter fun piece => !isDropped piece).map
      pieceComponent ↔ ['.', '.'] ∈ path.splitOn '/' := by
    rw [List.mem_map]
    constructor
    · rintro ⟨piece, hpiece, heq⟩
      unfold pieceComponent at heq
      split at heq
      · next hdots => exact hdots ▸ (List.mem_filter.mp hpiece).1
      · cases heq
    · intro hmem
      exact ⟨_, List.mem_filter.mpr ⟨hmem, rfl⟩, rfl⟩
  unfold components
  dsimp only
  rw [hstart _ _ _, hrest]
  split
  · simp
  · split <;> simp

/-- The dot in front is the only one that is kept. -/
theorem curDir_mem_components {path : List Char} (h : path.head? ≠ some '/') :
    Component.curDir ∈ components path ↔ (path.splitOn '/').head? = some ['.'] := by
  have hrest : Component.curDir ∉ ((path.splitOn '/').filter fun piece => !isDropped piece).map
      pieceComponent := by
    rw [List.mem_map]
    rintro ⟨piece, -, heq⟩
    unfold pieceComponent at heq
    split at heq <;> cases heq
  unfold components
  dsimp only
  rw [if_neg h, List.mem_append]
  split
  · next hdot => simp [hdot]
  · next hdot => exact ⟨fun hmem => by simp [hrest] at hmem, fun hhead => absurd hhead hdot⟩

/-- The check, in the words of the source. -/
theorem normalizedDomain_iff :
    normalizedDomain domain = true ↔
      domain ≠ "" ∧ domain.toList.getLast? ≠ some '/' ∧ domain.toList.head? ≠ some '/' ∧
        ∀ component ∈ components domain.toList, component ≠ .parentDir ∧ component ≠ .curDir := by
  have hcomponents : (∀ component ∈ components domain.toList,
      component ≠ .parentDir ∧ component ≠ .curDir) ↔
      Component.parentDir ∉ components domain.toList ∧ Component.curDir ∉ components domain.toList := by
    constructor
    · intro h
      exact ⟨fun hmem => (h _ hmem).1 rfl, fun hmem => (h _ hmem).2 rfl⟩
    · rintro ⟨hparent, hcur⟩ component hmem
      exact ⟨fun heq => hparent (heq ▸ hmem), fun heq => hcur (heq ▸ hmem)⟩
  rw [hcomponents, parentDir_mem_components]
  unfold normalizedDomain
  simp only [Bool.and_eq_true, bne_iff_ne, Bool.not_eq_true', List.contains_eq_mem,
    decide_eq_false_iff_not]
  constructor
  · rintro ⟨⟨⟨⟨hne, hlast⟩, hhead⟩, hdot⟩, hdots⟩
    exact ⟨hne, hlast, hhead, hdots, fun hmem => hdot ((curDir_mem_components hhead).mp hmem)⟩
  · rintro ⟨hne, hlast, hhead, hdots, hdot⟩
    exact ⟨⟨⟨⟨hne, hlast⟩, hhead⟩, fun hmem => hdot ((curDir_mem_components hhead).mpr hmem)⟩, hdots⟩

/-- A domain that is accepted has no empty piece and no dot, unless it is spelled loosely. -/
theorem piece_of_not_loose (hdomain : normalizedDomain domain = true) (hloose : ¬Loose domain.toList)
    {piece : List Char} (hpiece : piece ∈ domain.toList.splitOn '/') : isDropped piece = false := by
  obtain ⟨hne, hlast, hhead, hcomponents⟩ := normalizedDomain_iff.mp hdomain
  have hplace := mem_intercalate '/' hpiece
  rw [List.intercalate_splitOn] at hplace
  have hdropped : piece ≠ [] ∧ piece ≠ ['.'] := by
    constructor
    · rintro rfl
      rcases hplace with hwhole | hfront | hend | hwithin
      · exact hne (String.toList_inj.mp (hwhole.trans rfl))
      · obtain ⟨after, hafter⟩ := hfront
        exact hhead (by rw [← hafter]; rfl)
      · obtain ⟨before, hbefore⟩ := hend
        exact hlast (by rw [← hbefore]; simp)
      · exact hloose (.inl hwithin)
    · rintro rfl
      have hdot : (domain.toList.splitOn '/').head? ≠ some ['.'] := fun hdot =>
        (hcomponents _ ((curDir_mem_components hhead).mpr hdot)).2 rfl
      rcases hplace with hwhole | ⟨after, hfront⟩ | hend | hwithin
      · exact hdot (by rw [hwhole]; rfl)
      · refine hdot ?_
        have hsplit := List.splitOn_append_cons_self_of_not_mem (show '/' ∉ ['.'] by decide) after
        have htext : ['.'] ++ '/' :: after = domain.toList := hfront
        rw [← htext, hsplit]
        rfl
      · exact hloose (.inr (.inr hend))
      · exact hloose (.inr (.inl hwithin))
  simp [isDropped, hdropped]

/-- The components of a domain that is accepted and not spelled loosely are its pieces. -/
theorem components_of_not_loose (hdomain : normalizedDomain domain = true)
    (hloose : ¬Loose domain.toList) :
    components domain.toList = (domain.toList.splitOn '/').map .normal := by
  obtain ⟨-, -, hhead, hcomponents⟩ := normalizedDomain_iff.mp hdomain
  have hdot : (domain.toList.splitOn '/').head? ≠ some ['.'] := fun hdot =>
    (hcomponents _ ((curDir_mem_components hhead).mpr hdot)).2 rfl
  have hkept : (domain.toList.splitOn '/').filter (fun piece => !isDropped piece) =
      domain.toList.splitOn '/' := by
    rw [List.filter_eq_self]
    intro piece hpiece
    rw [piece_of_not_loose hdomain hloose hpiece]
    rfl
  unfold components
  dsimp only
  rw [if_neg hhead, if_neg hdot, List.nil_append, hkept]
  refine List.map_congr_left fun piece hpiece => if_neg ?_
  rintro rfl
  exact (hcomponents _ (parentDir_mem_components.mpr hpiece)).1 rfl

theorem joined_map_normal (pieces : List (List Char)) :
    joined (pieces.map .normal) = ['/'].intercalate pieces := by
  rw [joined, List.map_map]
  congr 1
  exact List.map_id pieces

theorem normalDomain_iff (hdomain : normalizedDomain domain = true) :
    NormalDomain domain ↔ ¬Loose domain.toList := by
  constructor
  · intro h hloose
    rcases hloose with hrepeated | hdot | hdot
    · exact (h.pieces [] (mem_splitOn_of_between (by simp) hrepeated)).1 rfl
    · exact (h.pieces ['.'] (mem_splitOn_of_between (by decide) hdot)).2.1 rfl
    · exact (h.pieces ['.'] (mem_splitOn_of_suffix (by decide) hdot)).2.1 rfl
  · intro hloose
    constructor
    · rw [components_of_not_loose hdomain hloose, joined_map_normal, List.intercalate_splitOn]
    · intro piece hpiece
      have hdropped := piece_of_not_loose hdomain hloose hpiece
      simp only [isDropped, decide_eq_false_iff_not, not_or] at hdropped
      refine ⟨hdropped.1, hdropped.2, ?_⟩
      rintro rfl
      obtain ⟨-, -, -, hcomponents⟩ := normalizedDomain_iff.mp hdomain
      exact (hcomponents _ (parentDir_mem_components.mpr hpiece)).1 rfl

end Accepted

/-- The domains that are accepted are in normal form exactly when none of them repeats a separator or
has a single dot among its pieces. -/
theorem accepted_domains_normal_iff {domains : List String} {required : Bool}
    (h : validateConflictDomains (some domains) required = .ok ()) :
    NormalDomains domains ↔ ∀ domain ∈ domains, ¬Loose domain.toList := by
  have haccepted : ∀ domain ∈ domains, normalizedDomain domain = true := by
    unfold validateConflictDomains at h
    rw [ensure_bind_ok_iff, ensure_eq_ok] at h
    exact List.all_eq_true.mp h.2.1
  constructor
  · intro hnormal domain hdomain
    exact (normalDomain_iff (haccepted domain hdomain)).mp (hnormal.each domain hdomain)
  · intro hloose
    have heach : ∀ domain ∈ domains, NormalDomain domain := fun domain hdomain =>
      (normalDomain_iff (haccepted domain hdomain)).mpr (hloose domain hdomain)
    refine ⟨heach, fun a ha b hb hne hsame => hne (String.toList_inj.mp ?_)⟩
    rw [← (heach a ha).joined, ← (heach b hb).joined, hsame]

/-- Two tasks may be given the same directory in two spellings. -/
theorem doubled_separator_accepted :
    validateConflictDomains (some ["src/lib", "src//lib"]) true = .ok () ∧
      components "src/lib".toList = components "src//lib".toList ∧
      ¬NormalDomains ["src/lib", "src//lib"] := by
  refine ⟨rfl, by decide, fun h => ?_⟩
  exact h.distinct "src/lib" (by simp) "src//lib" (by simp) (by decide) (by decide)

theorem accepted_domains_normal_iff_two :
    NormalDomains ["src/lib", "doc"] ↔ ∀ domain ∈ ["src/lib", "doc"], ¬Loose domain.toList :=
  have haccepted : validateConflictDomains (some ["src/lib", "doc"]) true = .ok () := by decide
  accepted_domains_normal_iff haccepted

end Tally.Campaign
