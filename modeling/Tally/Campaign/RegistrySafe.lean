import Mathlib.Data.Fintype.Defs
import Tally.Campaign.Registry

/-!
# Published campaigns have their assets

With a shared lock a handle can collect a generation that another one is about to publish. Where no
handle changes the files of a generation that another has still to publish, and none publishes a
generation that another has not seen in its list, every published authority names a generation that
verifies, and no generation that is named is removed (`assets_stay`).
-/

namespace Tally.Campaign

open Tally.Lib

/-! ## What handles have in hand -/

namespace Phase

/-- The registration whose generation is brought up. -/
def registration : Phase → Option (Registration × Task)
  | .ensuring registration task | .checking registration _ _ _ task | .clearing registration task
  | .preparing registration _ task | .publishing registration task => some (registration, task)
  | .idle | .published | .listing .. | .adopting .. | .collecting .. | .removing _ | .dropping _ => none

/-- The generation that a handle has looked at and has still to publish. -/
def pending : Phase → Option AssetGeneration
  | .checking registration .. | .preparing registration .. | .publishing registration _ =>
    some registration.generation
  | .idle | .ensuring .. | .clearing .. | .published | .listing .. | .adopting .. | .collecting ..
  | .removing _ | .dropping _ => none

/-- The paths that a list has still to read, and the generations that it keeps. -/
def listed : Phase → Option (List String × List AssetGeneration)
  | .listing rest live | .adopting rest live => some (rest, live)
  | .collecting live _ => some ([], live)
  | .ensuring registration (.adopt _ rest live) | .checking registration _ _ _ (.adopt _ rest live)
  | .clearing registration (.adopt _ rest live) | .preparing registration _ (.adopt _ rest live)
  | .publishing registration (.adopt _ rest live) => some (rest, live ++ [registration.generation])
  | .ensuring _ .write | .checking _ _ _ _ .write | .clearing _ .write | .preparing _ _ .write
  | .publishing _ .write | .published | .idle | .removing _ | .dropping _ => none

theorem pending_of_removed {phase : Phase} {generation : AssetGeneration}
    (h : phase.removed = some generation) : phase.pending = none := by
  cases phase with
  | clearing | collecting | dropping => rfl
  | idle | ensuring | checking | preparing | publishing | published | listing | adopting | removing =>
    cases h

end Phase

/-- The generation whose files a move changes. The roots that a check makes again do not count. -/
def touched : Phase → Move → Option AssetGeneration
  | phase, .unlink _ => phase.removed
  | .preparing registration _ _, .next | .preparing registration _ _, .copy _ _ =>
    some registration.generation
  | _, _ => none

section

variable [RegistryHost]

/-- The authority that a move publishes, and its path. -/
def publication : Phase → Move → Option (String × Registration)
  | .publishing registration .write, .next => some (registration.path, registration)
  | .publishing registration (.adopt path _ _), .next => some (path, registration)
  | _, _ => none

end

/-- A list that is under way keeps the generation, or it will read the authority. -/
def Phase.Sees (phase : Phase) (path : String) (generation : AssetGeneration) : Prop :=
  ∀ list ∈ phase.listed, path ∈ list.1 ∨ generation ∈ list.2

instance (phase : Phase) (path : String) (generation : AssetGeneration) :
    Decidable (phase.Sees path generation) :=
  inferInstanceAs (Decidable (∀ list ∈ phase.listed, path ∈ list.1 ∨ generation ∈ list.2))

section Safety

variable [RegistryHost]

/-- The path of the authority that a task writes. -/
def Task.path (task : Task) (registration : Registration) : String :=
  match task with
  | .write => registration.path
  | .adopt path _ _ => path

namespace RegistryWorld

variable {Handle : Type}

/-- An event does not cross an operation of another handle. Each registration is of one campaign. -/
def Calm (home : String → String) (world : RegistryWorld Handle) : RegistryEvent Handle → Prop
  | .start _ (.write registration) | .start _ (.remove registration) =>
    registration.path = home registration.registrationId
  | .start _ .registrations | .abandon _ => True
  | .move handle move =>
    (∀ generation ∈ touched (world.phases handle) move, ∀ other, other ≠ handle →
      (world.phases other).pending ≠ some generation) ∧
    ∀ authority ∈ publication (world.phases handle) move, ∀ other, other ≠ handle →
      (world.phases other).removed ≠ some authority.2.generation ∧
        (world.phases other).Sees authority.1 authority.2.generation

instance [DecidableEq Handle] [Fintype Handle] (home : String → String) (world : RegistryWorld Handle)
    (event : RegistryEvent Handle) : Decidable (world.Calm home event) :=
  match event with
  | .start _ (.write registration) | .start _ (.remove registration) =>
    inferInstanceAs (Decidable (registration.path = home registration.registrationId))
  | .start _ .registrations | .abandon _ => inferInstanceAs (Decidable True)
  | .move handle move => inferInstanceAs (Decidable (
      (∀ generation ∈ touched (world.phases handle) move, ∀ other, other ≠ handle →
        (world.phases other).pending ≠ some generation) ∧
      ∀ authority ∈ publication (world.phases handle) move, ∀ other, other ≠ handle →
        (world.phases other).removed ≠ some authority.2.generation ∧
          (world.phases other).Sees authority.1 authority.2.generation))

end RegistryWorld

/-! ## The invariant -/

/-- What has been prepared of an asset will be as its entry says. -/
def PreparedHolds (dir : GenerationDir) (registration : Registration) (role : AssetRole)
    (entry : CampaignAsset) : Prop :=
  EntryHolds dir (registration.setAsset role (authorityPath registration role entry)) role entry

/-- What a handle knows of the files of its generation. -/
def FilesOk (dirs : AssetGeneration → GenerationDir) : Phase → Prop
  | .checking registration manifest roles _ _ =>
    (dirs registration.generation).manifest = some manifest ∧ ∀ role, role ∉ roles →
      EntryHolds (dirs registration.generation) registration role (manifest.entry role)
  | .preparing registration ⟨todo, entries⟩ _ =>
    (dirs registration.generation).manifest = none ∧ ∀ role, role ∉ todo →
      ∃ entry, entries role = some entry ∧
        PreparedHolds (dirs registration.generation) registration role entry
  | .publishing registration _ => Verifies (dirs registration.generation) registration
  | .idle | .ensuring .. | .clearing .. | .published | .listing .. | .adopting .. | .collecting ..
  | .removing _ | .dropping _ => True

/-- The registration that a handle deals with is of the campaign of its path. -/
def HomeOk (home : String → String) (phase : Phase) : Prop :=
  (∀ registration task, phase.registration = some (registration, task) →
    task.path registration = home registration.registrationId) ∧
  ∀ registration, phase = .removing registration →
    registration.path = home registration.registrationId

structure PhaseOk (home : String → String) (authorities : Table String Registration)
    (dirs : AssetGeneration → GenerationDir) (phase : Phase) : Prop where
  listed : ∀ path authority, authorities.get? path = some authority →
    phase.Sees path authority.generation
  removed : ∀ generation, phase.removed = some generation → ∀ path authority,
    authorities.get? path = some authority → authority.generation ≠ generation
  files : FilesOk dirs phase
  home : HomeOk home phase

structure RegistryWorld.Invariant {Handle : Type} (home : String → String)
    (world : RegistryWorld Handle) : Prop where
  published : ∀ path authority, world.authorities.get? path = some authority →
    path = home authority.registrationId ∧ Verifies (world.dirs authority.generation) authority
  phases : ∀ handle, PhaseOk home world.authorities world.dirs (world.phases handle)

/-! ## Frames -/

section Frames

variable {home : String → String} {authorities : Table String Registration}
  {dirs : AssetGeneration → GenerationDir} {phase : Phase}

theorem FilesOk.update {generation : AssetGeneration} {dir : GenerationDir} (h : FilesOk dirs phase)
    (hpending : phase.pending ≠ some generation) :
    FilesOk (Function.update dirs generation dir) phase := by
  cases phase with
  | checking registration =>
    have hne : registration.generation ≠ generation := fun heq => hpending (congrArg some heq)
    simpa only [FilesOk, Function.update_of_ne hne] using h
  | preparing registration =>
    have hne : registration.generation ≠ generation := fun heq => hpending (congrArg some heq)
    simpa only [FilesOk, Function.update_of_ne hne] using h
  | publishing registration =>
    have hne : registration.generation ≠ generation := fun heq => hpending (congrArg some heq)
    simpa only [FilesOk, Function.update_of_ne hne] using h
  | idle | ensuring | clearing | published | listing | adopting | collecting | removing | dropping =>
    trivial

theorem PhaseOk.updateDir {generation : AssetGeneration} {dir : GenerationDir}
    (h : PhaseOk home authorities dirs phase) (hpending : phase.pending ≠ some generation) :
    PhaseOk home authorities (Function.update dirs generation dir) phase where
  listed := h.listed
  removed := h.removed
  files := h.files.update hpending
  home := h.home

theorem PhaseOk.insert {path : String} {registration : Registration}
    (h : PhaseOk home authorities dirs phase) (hremoved : phase.removed ≠ some registration.generation)
    (hsees : phase.Sees path registration.generation) :
    PhaseOk home (authorities.insert path registration) dirs phase where
  listed := by
    intro other authority hget
    rw [Table.get?_insert] at hget
    split at hget
    · next heq =>
      cases hget
      exact heq ▸ hsees
    · exact h.listed other authority hget
  removed := by
    intro generation hgeneration other authority hget
    rw [Table.get?_insert] at hget
    split at hget
    · cases hget
      rintro rfl
      exact hremoved hgeneration
    · exact h.removed generation hgeneration other authority hget
  files := h.files
  home := h.home

theorem PhaseOk.erase {path : String} (h : PhaseOk home authorities dirs phase) :
    PhaseOk home (authorities.erase path) dirs phase where
  listed := by
    intro other authority hget
    rw [Table.get?_erase] at hget
    split at hget
    · cases hget
    · exact h.listed other authority hget
  removed := by
    intro generation hgeneration other authority hget
    rw [Table.get?_erase] at hget
    split at hget
    · cases hget
    · exact h.removed generation hgeneration other authority hget
  files := h.files
  home := h.home

end Frames

/-! ## Entries -/

section Entries

variable {dir dir' : GenerationDir} {registration registration' : Registration} {role other : AssetRole}
  {manifest : AssetManifest} {output : String}

omit [RegistryHost] in
@[simp] theorem generation_setAsset (registration : Registration) (role : AssetRole) (path : AssetPath) :
    (registration.setAsset role path).generation = registration.generation := by
  cases role <;> rfl

omit [RegistryHost] in
@[simp] theorem registrationId_setAsset (registration : Registration) (role : AssetRole)
    (path : AssetPath) :
    (registration.setAsset role path).registrationId = registration.registrationId := by
  cases role <;> rfl

@[simp] theorem path_setAsset (registration : Registration) (role : AssetRole) (path : AssetPath) :
    (registration.setAsset role path).path = registration.path := by
  cases role <;> rfl

omit [RegistryHost] in
@[simp] theorem asset_setAsset_self (registration : Registration) (role : AssetRole) (path : AssetPath) :
    (registration.setAsset role path).asset role = path := by
  cases role <;> rfl

omit [RegistryHost] in
theorem asset_setAsset_ne (h : other ≠ role) (path : AssetPath) :
    (registration.setAsset role path).asset other = registration.asset other := by
  cases role <;> cases other <;> first | rfl | exact absurd rfl h

/-- An entry depends on the generation of the registration and on the path of its own role. -/
theorem EntryHolds.congr {entry : CampaignAsset} (h : EntryHolds dir registration role entry)
    (hgeneration : registration'.generation = registration.generation)
    (hasset : registration'.asset role = registration.asset role) :
    EntryHolds dir registration' role entry := by
  cases entry with
  | nixStore output => exact ⟨h.1, hasset ▸ h.2⟩
  | snapshot sha256 mode => exact ⟨h.1, by rw [hasset, hgeneration]; exact h.2⟩

/-- The root of an asset in the store, once more. -/
def GenerationDir.withRoot (dir : GenerationDir) (role : AssetRole) (output : String) : GenerationDir :=
  { dir with roots := Function.update dir.roots role (some output) }

theorem EntryHolds.withRoot (hentry : manifest.entry role = .nixStore output)
    (h : EntryHolds dir registration other (manifest.entry other)) :
    EntryHolds (dir.withRoot role output) registration other (manifest.entry other) := by
  by_cases hrole : other = role
  · subst hrole
    rw [hentry] at h ⊢
    exact ⟨Function.update_self .., h.2⟩
  · cases hother : manifest.entry other with
    | nixStore output' =>
      rw [hother] at h
      exact ⟨(Function.update_of_ne hrole ..).trans h.1, h.2⟩
    | snapshot sha256 mode =>
      rw [hother] at h
      exact h

theorem Verifies.withRoot (hmanifest : dir.manifest = some manifest)
    (hentry : manifest.entry role = .nixStore output) (h : Verifies dir registration) :
    Verifies (dir.withRoot role output) registration := by
  obtain ⟨found, hfound, hholds⟩ := h
  obtain rfl : manifest = found := Option.some_inj.mp (hmanifest.symm.trans hfound)
  exact ⟨manifest, hmanifest, fun other => (hholds other).withRoot hentry⟩

/-- What a role of `reconcile_manifest` does. -/
theorem reconcileEntry_spec {entry : CampaignAsset} {changed : Bool}
    (h : reconcileEntry dir registration role entry = some (dir', registration', changed)) :
    (dir' = dir ∨ ∃ output, entry = .nixStore output ∧ dir' = dir.withRoot role output) ∧
      (registration' = registration ∨
        registration' = registration.setAsset role (.snapshot registration.generation role)) ∧
      EntryHolds dir' registration' role entry := by
  cases entry with
  | nixStore output =>
    rw [reconcileEntry] at h
    split at h
    · next houtput =>
      cases h
      exact ⟨.inr ⟨output, rfl, rfl⟩, .inl rfl, Function.update_self .., houtput⟩
    · cases h
  | snapshot sha256 mode =>
    simp only [reconcileEntry] at h
    split at h
    · next hverify =>
      have hfile : ∃ file, dir.snapshots role = some file ∧ RegistryHost.sha256 file.content = sha256 ∧
          file.mode = mode := by
        unfold verifySnapshot at hverify
        split at hverify
        · cases hverify
        · next file hfile =>
          obtain ⟨hmode, hsha⟩ := of_decide_eq_true hverify
          exact ⟨file, hfile, hsha, hmode⟩
      split at h
      · next hasset =>
        cases h
        exact ⟨.inl rfl, .inl rfl, hfile, hasset⟩
      · split at h
        · cases h
        · cases h
          refine ⟨.inl rfl, .inr rfl, hfile, ?_⟩
          rw [asset_setAsset_self, generation_setAsset]
    · cases h

end Entries

/-! ## Steps -/

namespace RegistryWorld

variable {Handle : Type} [DecidableEq Handle] {home : String → String} {world : RegistryWorld Handle}
  {handle : Handle} {phase : Phase}

namespace Invariant

theorem setPhase (h : world.Invariant home)
    (hphase : PhaseOk home world.authorities world.dirs phase) :
    (world.setPhase handle phase).Invariant home where
  published := h.published
  phases := (Function.forall_update_iff _ fun _ => PhaseOk home world.authorities world.dirs).mpr
    ⟨hphase, fun other _ => h.phases other⟩

omit [DecidableEq Handle] in
/-- Without a manifest no authority names a generation. -/
theorem not_named (h : world.Invariant home) {generation : AssetGeneration}
    (hmanifest : (world.dirs generation).manifest = none) :
    ∀ path authority, world.authorities.get? path = some authority →
      authority.generation ≠ generation := by
  rintro path authority hget rfl
  obtain ⟨-, manifest, hsome, -⟩ := h.published path authority hget
  rw [hmanifest] at hsome
  cases hsome

/-- A handle changes the files of a generation that no authority names and no other handle has still to
publish. -/
theorem setDir (h : world.Invariant home) {generation : AssetGeneration} {dir : GenerationDir}
    (hnamed : ∀ path authority, world.authorities.get? path = some authority →
      authority.generation ≠ generation)
    (hothers : ∀ other, other ≠ handle → (world.phases other).pending ≠ some generation)
    (hphase : PhaseOk home world.authorities (Function.update world.dirs generation dir) phase) :
    ((world.setDir generation dir).setPhase handle phase).Invariant home where
  published := by
    intro path authority hget
    obtain ⟨hhome, hverifies⟩ := h.published path authority hget
    refine ⟨hhome, ?_⟩
    show Verifies (Function.update world.dirs generation dir authority.generation) authority
    rwa [Function.update_of_ne (hnamed path authority hget)]
  phases := (Function.forall_update_iff _ fun _ => PhaseOk home world.authorities
    (Function.update world.dirs generation dir)).mpr
    ⟨hphase, fun other hother => (h.phases other).updateDir (hothers other hother)⟩

end Invariant

omit [DecidableEq Handle] in
theorem phaseOk_idle : PhaseOk home world.authorities world.dirs .idle where
  listed := fun _ _ _ _ h => (nomatch h)
  removed := fun _ h => (nomatch h)
  files := trivial
  home := ⟨fun _ _ h => (nomatch h), fun _ h => (nomatch h)⟩

omit [RegistryHost] [DecidableEq Handle] in
/-- A list that begins with all authorities sees each of them. -/
theorem sees_keys (hlisted : phase.listed = some (world.authorities.keys, [])) (path : String)
    (authority : Registration) (hget : world.authorities.get? path = some authority) :
    phase.Sees path authority.generation := by
  intro list hlist
  obtain rfl : (world.authorities.keys, []) = list := Option.some_inj.mp (hlisted.symm.trans hlist)
  exact .inl ((Table.mem_keys_iff _).mpr ⟨authority, hget⟩)

omit [DecidableEq Handle] in
theorem phaseOk_adopting : PhaseOk home world.authorities world.dirs
    (.adopting world.authorities.keys []) where
  listed := sees_keys rfl
  removed := fun _ h => (nomatch h)
  files := trivial
  home := ⟨fun _ _ h => (nomatch h), fun _ h => (nomatch h)⟩

omit [DecidableEq Handle] in
theorem phaseOk_listing : PhaseOk home world.authorities world.dirs
    (.listing world.authorities.keys []) where
  listed := sees_keys rfl
  removed := fun _ h => (nomatch h)
  files := trivial
  home := ⟨fun _ _ h => (nomatch h), fun _ h => (nomatch h)⟩

/-- A step of `ensure_asset_generation` and what follows: the phase keeps its registration and its
list. -/
theorem phaseOk_of_same {authorities : Table String Registration}
    {dirs dirs' : AssetGeneration → GenerationDir} {before after : Phase}
    {registration registration' : Registration} {task : Task}
    (h : PhaseOk home authorities dirs before)
    (hbefore : before.registration = some (registration, task))
    (hafter : after.registration = some (registration', task))
    (hlisted : after.listed = before.listed)
    (hid : registration'.registrationId = registration.registrationId)
    (hpath : registration'.path = registration.path)
    (hremoved : ∀ generation, after.removed = some generation → ∀ path authority,
      authorities.get? path = some authority → authority.generation ≠ generation)
    (hfiles : FilesOk dirs' after) : PhaseOk home authorities dirs' after where
  listed := by
    intro path authority hget list hlist
    exact h.listed path authority hget list (hlisted ▸ hlist)
  removed := hremoved
  files := hfiles
  home := by
    constructor
    · intro found task' hfound
      obtain ⟨rfl, rfl⟩ : registration' = found ∧ task = task' := by
        simpa using hafter.symm.trans hfound
      have hhome := h.home.1 registration task hbefore
      rw [hid, ← hhome]
      cases task with
      | write => exact hpath
      | adopt path rest live => rfl
    · rintro found rfl
      cases hafter

omit [RegistryHost] in
theorem mem_all (role : AssetRole) : role ∈ AssetRole.all := by
  cases role <;> decide

theorem mem_preparationOrder (registration : Registration) (role : AssetRole) :
    role ∈ preparationOrder registration := by
  rw [preparationOrder, List.mem_append, List.mem_filter, List.mem_filter]
  cases RegistryHost.containingStoreOutput (registration.asset role) with
  | none => exact .inl ⟨mem_all role, rfl⟩
  | some => exact .inr ⟨mem_all role, rfl⟩

theorem Invariant.lookAtManifest (h : world.Invariant home) {registration : Registration} {task : Task}
    (hphase : world.phases handle = .ensuring registration task) :
    (world.lookAtManifest handle registration task).Invariant home := by
  have hok := hphase ▸ h.phases handle
  unfold RegistryWorld.lookAtManifest
  split
  · next manifest hmanifest =>
    apply h.setPhase
    refine phaseOk_of_same hok rfl rfl (by cases task <;> rfl) rfl rfl (fun _ h => (nomatch h)) ?_
    exact ⟨hmanifest, fun role hrole => absurd (mem_all role) hrole⟩
  · next hmanifest =>
    split
    · exact h.setPhase phaseOk_idle
    · apply h.setPhase
      refine phaseOk_of_same hok rfl rfl (by cases task <;> rfl) rfl rfl ?_ trivial
      rintro generation ⟨⟩
      exact h.not_named hmanifest

/-- The phase after `ensure_asset_generation`. -/
theorem phaseOk_ensured {authorities : Table String Registration}
    {dirs dirs' : AssetGeneration → GenerationDir} {before : Phase}
    {registration registration' : Registration} {task : Task} (changed : Bool)
    (h : PhaseOk home authorities dirs before)
    (hbefore : before.registration = some (registration, task))
    (hlisted : ∀ path rest live, task = .adopt path rest live →
      before.listed = some (rest, live ++ [registration.generation]))
    (hwrite : task = .write → before.listed = none)
    (hid : registration'.registrationId = registration.registrationId)
    (hpath : registration'.path = registration.path)
    (hgeneration : registration'.generation = registration.generation)
    (hverifies : Verifies (dirs' registration'.generation) registration') :
    PhaseOk home authorities dirs' (ensured registration' changed task) := by
  cases task with
  | write =>
    exact phaseOk_of_same h hbefore rfl (hwrite rfl).symm hid hpath (fun _ h => (nomatch h)) hverifies
  | adopt path rest live =>
    have hsame := hlisted path rest live rfl
    unfold ensured
    simp only
    split
    · refine phaseOk_of_same h hbefore rfl ?_ hid hpath (fun _ h => (nomatch h)) hverifies
      rw [hsame, ← hgeneration]
      rfl
    · refine ⟨?_, fun _ h => (nomatch h), trivial, fun _ _ h => (nomatch h), fun _ h => (nomatch h)⟩
      intro other authority hget list hlist
      refine h.listed other authority hget list ?_
      rw [hsame, ← hgeneration]
      exact hlist

/-- The files of other handles when a root is made again. -/
theorem FilesOk.withRoot {dirs : AssetGeneration → GenerationDir} {generation : AssetGeneration}
    {manifest : AssetManifest} {role : AssetRole} {output : String}
    (hmanifest : (dirs generation).manifest = some manifest)
    (hentry : manifest.entry role = .nixStore output) (h : FilesOk dirs phase) :
    FilesOk (Function.update dirs generation ((dirs generation).withRoot role output)) phase := by
  by_cases hpending : phase.pending = some generation
  · cases phase with
    | checking registration found =>
      obtain rfl : registration.generation = generation := Option.some_inj.mp hpending
      obtain ⟨hfound, hholds⟩ := h
      obtain rfl : manifest = found := Option.some_inj.mp (hmanifest.symm.trans hfound)
      simp only [FilesOk, Function.update_self]
      exact ⟨hmanifest, fun other hother => (hholds other hother).withRoot hentry⟩
    | preparing registration =>
      obtain rfl : registration.generation = generation := Option.some_inj.mp hpending
      rw [h.1] at hmanifest
      cases hmanifest
    | publishing registration =>
      obtain rfl : registration.generation = generation := Option.some_inj.mp hpending
      simp only [FilesOk, Function.update_self]
      exact Verifies.withRoot hmanifest hentry h
    | idle | ensuring | clearing | published | listing | adopting | collecting | removing | dropping =>
      cases hpending
  · exact h.update hpending

theorem Invariant.reconcileNext (h : world.Invariant home) {registration : Registration}
    {manifest : AssetManifest} {role : AssetRole} {roles : List AssetRole} {changed : Bool} {task : Task}
    (hphase : world.phases handle = .checking registration manifest (role :: roles) changed task) :
    (world.reconcileNext handle registration manifest role roles changed task).Invariant home := by
  have hok := hphase ▸ h.phases handle
  obtain ⟨hmanifest, hholds⟩ := hok.files
  unfold RegistryWorld.reconcileNext
  split
  · exact h.setPhase phaseOk_idle
  · next dir registration' changed' hreconcile =>
    obtain ⟨hdir, hregistration, hentry⟩ := reconcileEntry_spec hreconcile
    have hgeneration : registration'.generation = registration.generation := by
      rcases hregistration with rfl | rfl
      · rfl
      · exact generation_setAsset ..
    have hid : registration'.registrationId = registration.registrationId := by
      rcases hregistration with rfl | rfl
      · rfl
      · exact registrationId_setAsset ..
    have hpath : registration'.path = registration.path := by
      rcases hregistration with rfl | rfl
      · rfl
      · exact path_setAsset ..
    have hasset (other : AssetRole) (hother : other ≠ role) :
        registration'.asset other = registration.asset other := by
      rcases hregistration with rfl | rfl
      · rfl
      · exact asset_setAsset_ne hother _
    -- The directory is as before, but for a root that its manifest names.
    have hframe (authority : Registration) (other : AssetRole)
        (hother : EntryHolds (world.dirs registration.generation) authority other (manifest.entry other)) :
        EntryHolds dir authority other (manifest.entry other) := by
      rcases hdir with rfl | ⟨output, houtput, rfl⟩
      · exact hother
      · exact hother.withRoot houtput
    have hmanifest' : dir.manifest = some manifest := by
      rcases hdir with rfl | ⟨output, houtput, rfl⟩
      · exact hmanifest
      · exact hmanifest
    constructor
    · intro path authority hget
      obtain ⟨hhome, hverifies⟩ := h.published path authority hget
      refine ⟨hhome, ?_⟩
      show Verifies (Function.update world.dirs registration.generation dir authority.generation) authority
      by_cases hsame : authority.generation = registration.generation
      · rw [hsame] at hverifies ⊢
        obtain ⟨found, hfound, hentries⟩ := hverifies
        obtain rfl : manifest = found := Option.some_inj.mp (hmanifest.symm.trans hfound)
        rw [Function.update_self]
        exact ⟨manifest, hmanifest', fun other => hframe authority other (hentries other)⟩
      · rwa [Function.update_of_ne hsame]
    · refine (Function.forall_update_iff _ fun _ => PhaseOk home world.authorities
        (Function.update world.dirs registration.generation dir)).mpr ⟨?_, ?_⟩
      · refine phaseOk_of_same hok rfl rfl ?_ hid hpath (fun _ h => (nomatch h)) ?_
        · cases task with
          | write => rfl
          | adopt path rest live =>
            simp only [Phase.listed]
            rw [hgeneration]
        · simp only [FilesOk, hgeneration, Function.update_self]
          refine ⟨hmanifest', fun other hother => ?_⟩
          by_cases hrole : other = role
          · exact hrole ▸ hentry
          · exact (hframe registration other (hholds other (by simp [hrole, hother]))).congr hgeneration
              (hasset other hrole)
      · intro other _
        have hother := h.phases other
        refine ⟨hother.listed, hother.removed, ?_, hother.home⟩
        rcases hdir with rfl | ⟨output, houtput, rfl⟩
        · rw [Function.update_eq_self]
          exact hother.files
        · exact FilesOk.withRoot hmanifest houtput hother.files

/-! ## New generations -/

omit [RegistryHost] [DecidableEq Handle] in
theorem isEmpty_manifest {dir : GenerationDir} (h : dir.isEmpty = true) : dir.manifest = none := by
  rw [GenerationDir.isEmpty, Bool.and_eq_true] at h
  simpa using h.1

theorem Invariant.beginPreparing (h : world.Invariant home) {registration : Registration} {task : Task}
    (hphase : world.phases handle = .clearing registration task)
    (hempty : (world.dirs registration.generation).isEmpty = true) :
    (world.setPhase handle
      (.preparing registration ⟨preparationOrder registration, fun _ => none⟩ task)).Invariant home := by
  have hok := hphase ▸ h.phases handle
  apply h.setPhase
  refine phaseOk_of_same hok rfl rfl (by cases task <;> rfl) rfl rfl (fun _ h => (nomatch h)) ?_
  exact ⟨isEmpty_manifest hempty, fun role hrole => absurd (mem_preparationOrder registration role) hrole⟩

theorem EntryHolds.frame {dir dir' : GenerationDir} {registration : Registration} {role : AssetRole}
    {entry : CampaignAsset} (hroots : dir'.roots role = dir.roots role)
    (hsnapshots : dir'.snapshots role = dir.snapshots role)
    (h : EntryHolds dir registration role entry) : EntryHolds dir' registration role entry := by
  cases entry with
  | nixStore output => exact ⟨hroots.trans h.1, h.2⟩
  | snapshot sha256 mode => exact ⟨hsnapshots ▸ h.1, h.2⟩

/-- One more asset is prepared. -/
theorem Invariant.prepareNext (h : world.Invariant home) {registration : Registration} {role : AssetRole}
    {todo : List AssetRole} {entries : AssetRole → Option CampaignAsset} {task : Task}
    {dir : GenerationDir} {entry : CampaignAsset}
    (hphase : world.phases handle = .preparing registration ⟨role :: todo, entries⟩ task)
    (hothers : ∀ other, other ≠ handle →
      (world.phases other).pending ≠ some registration.generation)
    (hmanifest : dir.manifest = (world.dirs registration.generation).manifest)
    (hroots : ∀ other, other ≠ role →
      dir.roots other = (world.dirs registration.generation).roots other)
    (hsnapshots : ∀ other, other ≠ role →
      dir.snapshots other = (world.dirs registration.generation).snapshots other)
    (hentry : PreparedHolds dir registration role entry) :
    ((world.setDir registration.generation dir).setPhase handle
      (.preparing registration ⟨todo, Function.update entries role (some entry)⟩ task)).Invariant home := by
  have hok := hphase ▸ h.phases handle
  obtain ⟨hnone, hholds⟩ := hok.files
  refine h.setDir (h.not_named hnone) hothers ?_
  refine phaseOk_of_same hok rfl rfl (by cases task <;> rfl) rfl rfl (fun _ h => (nomatch h)) ?_
  simp only [FilesOk, Function.update_self]
  refine ⟨hmanifest.trans hnone, fun other hother => ?_⟩
  by_cases hrole : other = role
  · subst hrole
    exact ⟨entry, Function.update_self .., hentry⟩
  · obtain ⟨found, hfound, hprepared⟩ := hholds other (by simp [hrole, hother])
    exact ⟨found, (Function.update_of_ne hrole ..).trans hfound,
      EntryHolds.frame (hroots other hrole) (hsnapshots other hrole) hprepared⟩

theorem Invariant.addRoot (h : world.Invariant home) {registration : Registration} {role : AssetRole}
    {todo : List AssetRole} {entries : AssetRole → Option CampaignAsset} {task : Task}
    (hphase : world.phases handle = .preparing registration ⟨role :: todo, entries⟩ task)
    (hothers : ∀ other, other ≠ handle →
      (world.phases other).pending ≠ some registration.generation) :
    (world.addRoot handle registration role todo entries task).Invariant home := by
  unfold RegistryWorld.addRoot
  split
  · exact h
  · next output houtput =>
    refine h.prepareNext hphase hothers rfl (fun other hother => Function.update_of_ne hother ..)
      (fun _ _ => rfl) ?_
    exact ⟨Function.update_self .., by rw [asset_setAsset_self]; exact houtput⟩

theorem Invariant.copyAsset (h : world.Invariant home) {registration : Registration} {role : AssetRole}
    {todo : List AssetRole} {entries : AssetRole → Option CampaignAsset} {task : Task} (content : String)
    (mode : Nat) (hphase : world.phases handle = .preparing registration ⟨role :: todo, entries⟩ task)
    (hothers : ∀ other, other ≠ handle →
      (world.phases other).pending ≠ some registration.generation) :
    (world.copyAsset handle registration role todo entries task content mode).Invariant home := by
  unfold RegistryWorld.copyAsset
  split
  · exact h
  · refine h.prepareNext hphase hothers rfl (fun _ _ => rfl)
      (fun other hother => Function.update_of_ne hother ..) ?_
    refine ⟨⟨_, Function.update_self .., rfl, rfl⟩, ?_⟩
    rw [asset_setAsset_self, generation_setAsset]
    rfl

theorem Invariant.writeManifest (h : world.Invariant home) {registration : Registration}
    {entries : AssetRole → Option CampaignAsset} {task : Task}
    (hphase : world.phases handle = .preparing registration ⟨[], entries⟩ task)
    (hothers : ∀ other, other ≠ handle →
      (world.phases other).pending ≠ some registration.generation) :
    (world.writeManifest handle registration entries task).Invariant home := by
  have hok := hphase ▸ h.phases handle
  obtain ⟨hnone, hholds⟩ := hok.files
  unfold RegistryWorld.writeManifest
  split
  · next flow driver hflow hdriver =>
    refine h.setDir (h.not_named hnone) hothers ?_
    refine phaseOk_ensured _ hok rfl ?_ ?_ rfl rfl rfl ?_
    · rintro path rest live rfl
      rfl
    · rintro rfl
      rfl
    · show Verifies (Function.update world.dirs registration.generation _ registration.generation) _
      rw [Function.update_self]
      refine ⟨⟨flow, driver⟩, rfl, fun role => ?_⟩
      obtain ⟨entry, hentry, hprepared⟩ := hholds role (by simp)
      cases role with
      | flow =>
        obtain rfl : flow = entry := Option.some_inj.mp (hflow.symm.trans hentry)
        exact (EntryHolds.frame rfl rfl hprepared).congr rfl rfl
      | driver =>
        obtain rfl : driver = entry := Option.some_inj.mp (hdriver.symm.trans hentry)
        exact (EntryHolds.frame rfl rfl hprepared).congr rfl rfl
  · exact h

/-! ## Authorities -/

theorem Invariant.publish (h : world.Invariant home) {registration : Registration} {task : Task}
    (hphase : world.phases handle = .publishing registration task)
    (hothers : ∀ other, other ≠ handle → (world.phases other).removed ≠ some registration.generation ∧
      (world.phases other).Sees (task.path registration) registration.generation) :
    (world.publish handle registration task).Invariant home := by
  have hok := hphase ▸ h.phases handle
  have hhome := hok.home.1 registration task rfl
  have hpublished (path : String) (authority : Registration)
      (hget : (world.authorities.insert (task.path registration) registration).get? path =
        some authority) :
      path = home authority.registrationId ∧ Verifies (world.dirs authority.generation) authority := by
    rw [Table.get?_insert] at hget
    split at hget
    · next heq =>
      cases hget
      exact ⟨heq.trans hhome, hok.files⟩
    · exact h.published path authority hget
  have hphases (other : Handle) (hother : other ≠ handle) :
      PhaseOk home (world.authorities.insert (task.path registration) registration) world.dirs
        (world.phases other) :=
    (h.phases other).insert (hothers other hother).1 (hothers other hother).2
  cases task with
  | write =>
    refine ⟨hpublished, (Function.forall_update_iff _ fun _ => PhaseOk home
      (world.authorities.insert registration.path registration) world.dirs).mpr ⟨?_, hphases⟩⟩
    exact ⟨fun _ _ _ _ h => (nomatch h), fun _ h => (nomatch h), trivial, fun _ _ h => (nomatch h),
      fun _ h => (nomatch h)⟩
  | adopt own rest live =>
    refine ⟨hpublished, (Function.forall_update_iff _ fun _ => PhaseOk home
      (world.authorities.insert own registration) world.dirs).mpr ⟨?_, hphases⟩⟩
    refine ⟨?_, fun _ h => (nomatch h), trivial, fun _ _ h => (nomatch h), fun _ h => (nomatch h)⟩
    rintro path authority hget _ ⟨⟩
    rw [Table.get?_insert] at hget
    split at hget
    · cases hget
      exact .inr (List.mem_append_right _ (List.mem_singleton_self _))
    · exact hok.listed path authority hget (rest, live ++ [registration.generation]) rfl

theorem Invariant.removeAuthority (h : world.Invariant home) {registration : Registration}
    (hphase : world.phases handle = .removing registration) :
    RegistryWorld.Invariant home
      { world with
        authorities := world.authorities.erase registration.path
        phases := Function.update world.phases handle (.dropping registration.generation) } := by
  have hhome := (hphase ▸ h.phases handle : PhaseOk ..).home.2 registration rfl
  constructor
  · intro path authority hget
    rw [Table.get?_erase] at hget
    split at hget
    · cases hget
    · exact h.published path authority hget
  · refine (Function.forall_update_iff _ fun _ => PhaseOk home
      (world.authorities.erase registration.path) world.dirs).mpr
      ⟨⟨?_, ?_, trivial, fun _ _ h => (nomatch h), fun _ h => (nomatch h)⟩,
        fun other _ => (h.phases other).erase⟩
    · exact fun _ _ _ _ h => (nomatch h)
    · -- An authority of this registration would stand at the path that was removed.
      rintro generation ⟨⟩ path authority hget hsame
      rw [Table.get?_erase] at hget
      split at hget
      · cases hget
      · next hne =>
        have hid : authority.registrationId = registration.registrationId :=
          congrArg AssetGeneration.registrationId hsame
        have hpath := (h.published path authority hget).1
        rw [hid, ← hhome] at hpath
        exact hne hpath

/-! ## Runs -/

omit [RegistryHost] in
/-- A list goes on past an authority that it has read. -/
theorem sees_of_read {authorities : Table String Registration} {path : String} {rest : List String}
    {live : List AssetGeneration} {registration : Registration} {before after : Phase}
    (h : ∀ path authority, authorities.get? path = some authority →
      before.Sees path authority.generation)
    (hbefore : before.listed = some (path :: rest, live))
    (hafter : after.listed = some (rest, live ++ [registration.generation]))
    (hread : authorities.get? path = some registration) :
    ∀ path authority, authorities.get? path = some authority →
      after.Sees path authority.generation := by
  intro other authority hget list hlist
  obtain rfl : (rest, live ++ [registration.generation]) = list :=
    Option.some_inj.mp (hafter.symm.trans hlist)
  rcases h other authority hget (path :: rest, live) hbefore with hrest | hlive
  · rcases List.mem_cons.mp hrest with rfl | hrest
    · obtain rfl : registration = authority := Option.some_inj.mp (hread.symm.trans hget)
      exact .inr (List.mem_append_right _ (List.mem_singleton_self _))
    · exact .inl hrest
  · exact .inr (List.mem_append_left _ hlive)

theorem Invariant.next (h : world.Invariant home) (hcalm : world.Calm home (.move handle .next)) :
    (world.next handle (world.phases handle)).Invariant home := by
  have hok := h.phases handle
  obtain ⟨htouched, hpublished⟩ := hcalm
  cases hphase : world.phases handle with
  | idle => exact h
  | ensuring registration task => exact h.lookAtManifest hphase
  | checking registration manifest roles changed task =>
    cases roles with
    | cons role roles => exact h.reconcileNext hphase
    | nil =>
      rw [hphase] at hok
      obtain ⟨hmanifest, hholds⟩ := hok.files
      apply h.setPhase
      refine phaseOk_ensured changed hok rfl ?_ ?_ rfl rfl rfl
        ⟨manifest, hmanifest, fun role => hholds role (by simp)⟩
      · rintro path rest live rfl
        rfl
      · rintro rfl
        rfl
  | clearing registration task =>
    rw [RegistryWorld.next]
    split
    · next hempty => exact h.beginPreparing hphase hempty
    · exact h
  | preparing registration prepared task =>
    obtain ⟨todo, entries⟩ := prepared
    rw [hphase] at htouched
    have hothers := htouched registration.generation rfl
    cases todo with
    | nil => exact h.writeManifest hphase hothers
    | cons role todo => exact h.addRoot hphase hothers
  | publishing registration task =>
    rw [hphase] at hpublished
    apply h.publish hphase
    cases task with
    | write => exact hpublished (registration.path, registration) rfl
    | adopt path rest live => exact hpublished (path, registration) rfl
  | published => exact h.setPhase phaseOk_listing
  | listing rest live =>
    rw [hphase] at hok
    cases rest with
    | nil =>
      exact h.setPhase ⟨hok.listed, fun _ h => (nomatch h), trivial, fun _ _ h => (nomatch h),
        fun _ h => (nomatch h)⟩
    | cons path rest =>
      rw [RegistryWorld.next]
      split
      · exact h.setPhase phaseOk_idle
      · next registration hread =>
        refine h.setPhase ⟨?_, fun _ h => (nomatch h), trivial, fun _ _ h => (nomatch h),
          fun _ h => (nomatch h)⟩
        exact sees_of_read hok.listed rfl rfl hread
  | adopting rest live =>
    rw [hphase] at hok
    cases rest with
    | nil =>
      exact h.setPhase ⟨hok.listed, fun _ h => (nomatch h), trivial, fun _ _ h => (nomatch h),
        fun _ h => (nomatch h)⟩
    | cons path rest =>
      rw [RegistryWorld.next]
      split
      · exact h.setPhase phaseOk_idle
      · next registration hread =>
        refine h.setPhase ⟨?_, fun _ h => (nomatch h), trivial, ?_, fun _ h => (nomatch h)⟩
        · exact sees_of_read hok.listed rfl rfl hread
        · rintro found task ⟨⟩
          exact (h.published path registration hread).1
  | collecting live current =>
    rw [hphase] at hok
    cases current with
    | none => exact h.setPhase phaseOk_idle
    | some generation =>
      rw [RegistryWorld.next]
      split
      · exact h.setPhase ⟨hok.listed, fun _ h => (nomatch h), trivial, fun _ _ h => (nomatch h),
          fun _ h => (nomatch h)⟩
      · exact h
  | removing registration => exact h.removeAuthority hphase
  | dropping generation =>
    rw [RegistryWorld.next]
    split
    · exact h.setPhase phaseOk_adopting
    · exact h

theorem Invariant.collect (h : world.Invariant home) {live : List AssetGeneration}
    {generation : AssetGeneration} (hphase : world.phases handle = .collecting live none)
    (hlive : generation ∉ live) :
    (world.setPhase handle (.collecting live (some generation))).Invariant home := by
  have hok := hphase ▸ h.phases handle
  refine h.setPhase ⟨hok.listed, ?_, trivial, fun _ _ h => (nomatch h), fun _ h => (nomatch h)⟩
  rintro _ ⟨⟩ path authority hget rfl
  rcases hok.listed path authority hget ([], live) rfl with hrest | hmem
  · cases hrest
  · exact hlive hmem

theorem Invariant.unlink (h : world.Invariant home) {generation : AssetGeneration} {dir : GenerationDir}
    (hremoved : (world.phases handle).removed = some generation)
    (hothers : ∀ other, other ≠ handle → (world.phases other).pending ≠ some generation) :
    (world.setDir generation dir).Invariant home := by
  have hok := h.phases handle
  have hpending : (world.phases handle).pending ≠ some generation := by
    rw [Phase.pending_of_removed hremoved]
    exact fun h => (nomatch h)
  have hsame : world.setDir generation dir =
      (world.setDir generation dir).setPhase handle (world.phases handle) := by
    simp [RegistryWorld.setPhase, RegistryWorld.setDir]
  rw [hsame]
  exact h.setDir (hok.removed generation hremoved) hothers (hok.updateDir hpending)

/-- An event that does not cross another operation keeps the invariant. -/
theorem Invariant.step (h : world.Invariant home) {event : RegistryEvent Handle}
    (hcalm : world.Calm home event) : (world.step event).Invariant home := by
  match event with
  | .abandon handle => exact h.setPhase phaseOk_idle
  | .start handle operation =>
    rw [RegistryWorld.step]
    split
    · apply h.setPhase
      cases operation with
      | registrations => exact phaseOk_adopting
      | write registration =>
        refine ⟨fun _ _ _ _ h => (nomatch h), fun _ h => (nomatch h), trivial, ?_,
          fun _ h => (nomatch h)⟩
        rintro found task ⟨⟩
        exact hcalm
      | remove registration =>
        refine ⟨fun _ _ _ _ h => (nomatch h), fun _ h => (nomatch h), trivial,
          fun _ _ h => (nomatch h), ?_⟩
        rintro found ⟨⟩
        exact hcalm
    · exact h
  | .move handle .next => exact h.next hcalm
  | .move handle (.copy content mode) =>
    rw [RegistryWorld.step]
    split
    · next registration role todo entries task hphase =>
      have htouched := hcalm.1
      rw [hphase] at htouched
      exact h.copyAsset content mode hphase (htouched registration.generation rfl)
    · exact h
  | .move handle (.collect generation) =>
    rw [RegistryWorld.step]
    split
    · next live hphase =>
      split
      · exact h
      · next hlive => exact h.collect hphase hlive
    · exact h
  | .move handle (.unlink part) =>
    rw [RegistryWorld.step]
    split
    · exact h
    · next generation hremoved =>
      split
      · refine h.unlink hremoved (hcalm.1 generation ?_)
        unfold touched
        exact hremoved
      · exact h

omit [DecidableEq Handle] in
theorem invariant_initial (home : String → String) : (initial Handle).Invariant home where
  published := fun _ _ h => (nomatch h)
  phases := fun _ => phaseOk_idle

/-- No event of a run crosses an operation of another handle. -/
def RunCalm (home : String → String) (world : RegistryWorld Handle) : List (RegistryEvent Handle) → Prop
  | [] => True
  | event :: rest => world.Calm home event ∧ RunCalm home (world.step event) rest

instance decidableRunCalm [Fintype Handle] (home : String → String) :
    (world : RegistryWorld Handle) → (events : List (RegistryEvent Handle)) →
      Decidable (world.RunCalm home events)
  | _, [] => inferInstanceAs (Decidable True)
  | world, event :: rest =>
    have := decidableRunCalm home (world.step event) rest
    inferInstanceAs (Decidable (world.Calm home event ∧ (world.step event).RunCalm home rest))

theorem Invariant.foldl (h : world.Invariant home) {before later : List (RegistryEvent Handle)}
    (hcalm : world.RunCalm home (before ++ later)) :
    (before.foldl RegistryWorld.step world).Invariant home := by
  induction before generalizing world with
  | nil => exact h
  | cons event rest ih => exact ih (h.step hcalm.1) hcalm.2

/-- Over a run, each published authority names a generation that is there and verifies, and the
generations that are removed are not named. -/
structure AssetsStay (events : List (RegistryEvent Handle)) : Prop where
  verifies : ∀ before later, events = before ++ later → ∀ path authority,
    (run before).authorities.get? path = some authority →
      Verifies ((run before).dirs authority.generation) authority
  kept : ∀ before handle part later, events = before ++ .move handle (.unlink part) :: later →
    ∀ generation, ((run before).phases handle).removed = some generation → ∀ path authority,
      (run before).authorities.get? path = some authority → authority.generation ≠ generation

/-- Published campaigns keep their assets in every run whose events do not cross operations of other
handles. -/
theorem assetsStay_of_runCalm (home : String → String) (events : List (RegistryEvent Handle))
    (hcalm : (initial Handle).RunCalm home events) : AssetsStay events := by
  constructor
  · rintro before later rfl path authority hget
    exact (((invariant_initial home).foldl hcalm).published path authority hget).2
  · rintro before handle part later rfl generation hremoved
    exact (((invariant_initial home).foldl hcalm).phases handle).removed generation hremoved

end RegistryWorld

end Safety

namespace RegistrySample

local instance host : RegistryHost where
  sha256 content := "sha256:" ++ content
  containingStoreOutput
    | .outside "/nix/store/driver/bin/driver" => some "/nix/store/driver"
    | _ => none
  registrationPath repository pattern := repository ++ " " ++ pattern

def campaign : Registration where
  codeRepository := "owner/repository"
  worklistPattern := "specs"
  registrationId := "018f2f4e-0000-7000-8000-000000000000"
  armSerial := 1
  flow := .outside "/home/user/flow.js"
  driver := .outside "/nix/store/driver/bin/driver"

/-- The steps of a write up to its publication: the directory is cleared, the flow is copied, the driver
is rooted and the manifest is written. -/
def prepare : List (RegistryEvent Bool) :=
  [.start false (.write campaign), .move false .next, .move false .next,
    .move false (.copy "flow" 0o644), .move false .next, .move false .next]

/-- After the write another handle lists the campaigns. -/
def inTurn : List (RegistryEvent Bool) :=
  prepare ++ [.move false .next, .move false .next, .move false .next, .move false .next,
    .move false .next, .start true .registrations, .move true .next, .move true .next, .move true .next, .move true .next,
    .move true .next, .move true .next]

/-- Another handle lists the campaigns before the write is published. -/
def crossed : List (RegistryEvent Bool) :=
  prepare ++ [.start true .registrations, .move true .next, .move true (.collect campaign.generation),
    .move true (.unlink (.root .driver)), .move true (.unlink .manifest), .move false .next]

theorem assetsStay_inTurn :
    ((RegistryWorld.run inTurn).authorities.get? campaign.path).isSome = true ∧
      RegistryWorld.AssetsStay inTurn :=
  ⟨by decide, RegistryWorld.assetsStay_of_runCalm (fun _ => campaign.path) inTurn (by decide)⟩

theorem not_assetsStay_crossed : ¬RegistryWorld.AssetsStay crossed := by
  intro h
  have hmanifest : ((RegistryWorld.run crossed).dirs campaign.generation).manifest = none := by decide
  have hpublished : ((RegistryWorld.run crossed).authorities.get? campaign.path).map
      Registration.generation = some campaign.generation := by decide
  obtain ⟨authority, hget, hgeneration⟩ := Option.map_eq_some_iff.mp hpublished
  obtain ⟨manifest, hsome, -⟩ := h.verifies crossed [] (List.append_nil _).symm campaign.path authority hget
  rw [hgeneration, hmanifest] at hsome
  cases hsome

end RegistrySample

end Tally.Campaign
