import Tally.Lib.RoundRobin
import Tally.Flow.Spec

/-!
# The catalog of members

How a selector picks members of a catalog (`catalog.rs`): those of its class, in the order of the
catalog, or dealt in turn by a diversity key. What a selector with a diversity key returns is stated
by `Diverse`.
-/

namespace Tally.Flow

open Tally.Lib
open Tally.Witness (natValue)

/-- A member, as far as selectors read it. -/
structure CatalogMember where
  id : String
  family : String
  maker : String
  classes : List String

structure Catalog where
  members : List CatalogMember

structure SelectorOptions where
  count : Option Nat := none
  diversity : Option String := none
  deriving DecidableEq

structure CatalogSelection where
  selector : String
  options : SelectorOptions
  catalogHash : String
  members : List CatalogMember

/-- The first member whose id is already taken. -/
def findDuplicate (ids : List String) : List CatalogMember → Option CatalogMember
  | [] => none
  | member :: rest => if member.id ∈ ids then some member else findDuplicate (member.id :: ids) rest

def validateCatalogSemantics (catalog : Catalog) : Except FlowError Unit :=
  match findDuplicate [] catalog.members with
  | some member => .error ((FlowError.new "FlowCatalogError" "catalog-duplicate-member"
      ("catalog member id " ++ debugText member.id ++ " appears more than once")).detail
        "memberId" (.string member.id))
  | none => .ok ()

/-- The key is checked before it is used: what is not `family` is `maker`. -/
def diversityKey (diversity : String) (member : CatalogMember) : String :=
  if diversity = "family" then member.family else member.maker

def roundRobinDiversity (members : List CatalogMember) (diversity : String) : List CatalogMember :=
  roundRobin (diversityKey diversity) members

/-- The members of the class. -/
def eligible (catalog : Catalog) (selector : String) : List CatalogMember :=
  catalog.members.filter fun member => selector ∈ member.classes

def ordered (options : SelectorOptions) (members : List CatalogMember) : List CatalogMember :=
  match options.diversity with
  | some diversity => roundRobinDiversity members diversity
  | none => members

def resolveMembers (catalog : Catalog) (catalogHash selector : String) (options : SelectorOptions) :
    Except FlowError CatalogSelection := do
  ensure (isBlank selector = false)
    (FlowError.new "FlowSelectorError" "selector-invalid" "selector class must not be empty")
  ensure (options.count ≠ some 0)
    (FlowError.new "FlowSelectorError" "selector-invalid-count" "selector count must be positive")
  ensure (∀ key ∈ options.diversity, key = "family" ∨ key = "maker")
    ((FlowError.new "FlowSelectorError" "selector-invalid-diversity"
      "selector diversity must be \x22family\x22 or \x22maker\x22").detail
        "diversity" (.string (options.diversity.getD "")))
  let matching := eligible catalog selector
  ensure (matching.isEmpty = false)
    ((FlowError.new "FlowSelectorError" "selector-empty"
      ("selector class " ++ debugText selector ++ " resolves to no catalog members")).detail
        "selector" (.string selector))
  let requested := options.count.getD matching.length
  ensure (requested ≤ matching.length)
    ((((FlowError.new "FlowSelectorError" "selector-insufficient-members"
      ("selector class " ++ debugText selector ++ " requested " ++ toString requested ++
        " members but only " ++ toString matching.length ++ " resolve")).detail
        "selector" (.string selector)).detail "requested" (natValue requested)).detail
        "available" (natValue matching.length))
  return ⟨selector, options, catalogHash, (ordered options matching).take requested⟩

/-! ## What is returned -/

theorem findDuplicate_eq_none {ids : List String} {members : List CatalogMember}
    (h : findDuplicate ids members = none) :
    (members.map CatalogMember.id).Nodup ∧ ∀ member ∈ members, member.id ∉ ids := by
  induction members generalizing ids with
  | nil => exact ⟨List.nodup_nil, fun _ hmem => nomatch hmem⟩
  | cons member rest ih =>
    rw [findDuplicate] at h
    split at h
    · cases h
    · next hfresh =>
      obtain ⟨hnodup, hrest⟩ := ih h
      refine ⟨List.nodup_cons.mpr ⟨fun hmem => ?_, hnodup⟩, fun other hmem => ?_⟩
      · obtain ⟨other, hother, hid⟩ := List.mem_map.mp hmem
        exact hrest other hother (hid ▸ List.mem_cons_self)
      · rcases List.mem_cons.mp hmem with rfl | hmem
        · exact hfresh
        · exact fun hid => hrest other hmem (List.mem_cons_of_mem _ hid)

theorem nodup_ids {catalog : Catalog} (h : validateCatalogSemantics catalog = .ok ()) :
    (catalog.members.map CatalogMember.id).Nodup := by
  unfold validateCatalogSemantics at h
  split at h
  · cases h
  · next hnone => exact (findDuplicate_eq_none hnone).1

theorem resolveMembers_ok_iff {catalog : Catalog} {catalogHash selector : String}
    {options : SelectorOptions} {selection : CatalogSelection} :
    resolveMembers catalog catalogHash selector options = .ok selection ↔
      isBlank selector = false ∧ options.count ≠ some 0 ∧
      (∀ key ∈ options.diversity, key = "family" ∨ key = "maker") ∧
      (eligible catalog selector).isEmpty = false ∧
      options.count.getD (eligible catalog selector).length ≤ (eligible catalog selector).length ∧
      selection = ⟨selector, options, catalogHash,
        (ordered options (eligible catalog selector)).take
          (options.count.getD (eligible catalog selector).length)⟩ := by
  rw [resolveMembers]
  simp only [ensure_bind_ok_iff, pure, Except.pure, Except.ok.injEq, eq_comm (b := selection)]

/-- What a selection by a diversity key is, among the members of the class. -/
structure Diverse (catalog : Catalog) (catalogHash selector diversity : String)
    (options : SelectorOptions) (members : List CatalogMember) : Prop where
  /-- Every member is in the class, and taken from its own place in the catalog. -/
  distinct : members.Subperm (eligible catalog selector)
  /-- The ids are distinct when the catalog's are. -/
  ids : validateCatalogSemantics catalog = .ok () → (members.map CatalogMember.id).Nodup
  /-- A group is dealt from its front. -/
  inOrder : ∀ k, group (diversityKey diversity) members k <+:
    group (diversityKey diversity) (eligible catalog selector) k
  /-- Two groups with members left differ by at most one, at any point. -/
  balanced : ∀ p, p <+: members → ∀ k q,
    (group (diversityKey diversity) p k).length <
      (group (diversityKey diversity) (eligible catalog selector) k).length →
    (group (diversityKey diversity) p q).length <
      (group (diversityKey diversity) (eligible catalog selector) q).length →
    (group (diversityKey diversity) p k).length ≤ (group (diversityKey diversity) p q).length + 1
  /-- A smaller count is answered by the beginning of this answer. -/
  smaller : ∀ count, 0 < count → count ≤ members.length →
    resolveMembers catalog catalogHash selector { options with count := some count } =
      .ok ⟨selector, { options with count := some count }, catalogHash, members.take count⟩

theorem group_prefix (key : CatalogMember → String) {a b : List CatalogMember} (h : a <+: b)
    (k : String) : group key a k <+: group key b k := by
  obtain ⟨rest, rfl⟩ := h
  exact ⟨group key rest k, (group_append a rest).symm⟩

theorem resolveMembers_diverse {catalog : Catalog} {catalogHash selector diversity : String}
    {options : SelectorOptions} {selection : CatalogSelection}
    (h : resolveMembers catalog catalogHash selector options = .ok selection)
    (hdiversity : options.diversity = some diversity) :
    Diverse catalog catalogHash selector diversity options selection.members := by
  obtain ⟨hselector, hcount, hkey, hsome, hle, rfl⟩ := resolveMembers_ok_iff.mp h
  have hordered : ordered options (eligible catalog selector) =
      roundRobin (diversityKey diversity) (eligible catalog selector) := by
    rw [ordered, hdiversity]
    rfl
  have hperm := perm_roundRobin (diversityKey diversity) (eligible catalog selector)
  dsimp only
  generalize hrequested : options.count.getD (eligible catalog selector).length = requested at hle
  rw [hordered]
  have hpre := List.take_prefix requested
    (roundRobin (diversityKey diversity) (eligible catalog selector))
  have hsub : (List.take requested (roundRobin (diversityKey diversity)
      (eligible catalog selector))).Subperm (eligible catalog selector) :=
    hpre.sublist.subperm.trans hperm.subperm
  constructor
  case distinct => exact hsub
  case ids =>
    intro hvalid
    have hnodup : ((eligible catalog selector).map CatalogMember.id).Nodup :=
      (nodup_ids hvalid).sublist (List.filter_sublist.map _)
    obtain ⟨l, hl, hsublist⟩ := hsub
    exact (hl.map _).nodup_iff.mp (hnodup.sublist (hsublist.map _))
  case inOrder =>
    intro k
    have hgroup := group_prefix (diversityKey diversity) hpre k
    rwa [group_roundRobin] at hgroup
  case balanced =>
    intro p hp k q hk hq
    exact prefix_roundRobin_balanced _ _ (hp.trans hpre) hk hq
  case smaller =>
    intro count hpos hcount
    have hlen : count ≤ requested := by
      rw [List.length_take] at hcount
      omega
    rw [resolveMembers_ok_iff]
    refine ⟨hselector, ?_, hkey, hsome, hlen.trans hle, ?_⟩
    · simp only [ne_eq, Option.some.injEq]
      omega
    · have hsame : ordered { options with count := some count } (eligible catalog selector) =
          ordered options (eligible catalog selector) := rfl
      rw [hsame, hordered, List.take_take, Nat.min_eq_left hlen]
      rfl

namespace CatalogSample

def member (id family : String) : CatalogMember := ⟨id, family, "x", ["fast"]⟩

def catalog : Catalog :=
  ⟨[member "a1" "a", member "a2" "a", member "b1" "b", member "c1" "c", member "b2" "b"]⟩

theorem resolveMembers_diverse_families :
    Diverse catalog "sha256:catalog" "fast" "family" ⟨some 4, some "family"⟩
      [member "a1" "a", member "b1" "b", member "c1" "c", member "a2" "a"] :=
  @resolveMembers_diverse catalog "sha256:catalog" "fast" "family" ⟨some 4, some "family"⟩
    ⟨"fast", ⟨some 4, some "family"⟩, "sha256:catalog",
      [member "a1" "a", member "b1" "b", member "c1" "c", member "a2" "a"]⟩ (by rfl) rfl

end CatalogSample

end Tally.Flow
