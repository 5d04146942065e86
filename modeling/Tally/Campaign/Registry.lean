import Mathlib.Data.String.Basic
import Mathlib.Logic.Function.Basic
import Tally.Lib.Table

/-!
# The campaign registry

Handles of the registry (`campaign_registry.rs`) that write, list and remove registrations, step by
step. A registration is published by renaming its authority record into place, after the assets that it
names have been copied into a generation of their own; listing collects the generations that no
authority names. The lock that a handle takes is shared, so the steps of different handles interleave.
-/

namespace Tally.Campaign

open Tally.Lib

/-! ## Registrations and their assets -/

inductive AssetRole
  | flow
  | driver
  deriving DecidableEq

def AssetRole.all : List AssetRole := [.flow, .driver]

structure AssetGeneration where
  registrationId : String
  armSerial : Nat
  deriving DecidableEq

/-- A path of an asset. -/
inductive AssetPath
  | outside (path : String)
  | snapshot (generation : AssetGeneration) (role : AssetRole)
  /-- Any other path inside the directory of a generation. -/
  | inside (generation : AssetGeneration) (path : String)
  deriving DecidableEq

/-- `path.starts_with(directory)`. -/
def AssetPath.isWithin (path : AssetPath) (generation : AssetGeneration) : Bool :=
  match path with
  | outside _ => false
  | snapshot other _ | inside other _ => other = generation

/-- A registration, as far as the registry reads it. -/
structure Registration where
  codeRepository : String
  worklistPattern : String
  registrationId : String
  armSerial : Nat
  flow : AssetPath
  driver : AssetPath
  deriving DecidableEq

namespace Registration

def generation (registration : Registration) : AssetGeneration :=
  ⟨registration.registrationId, registration.armSerial⟩

def asset (registration : Registration) : AssetRole → AssetPath
  | .flow => registration.flow
  | .driver => registration.driver

def setAsset (registration : Registration) (role : AssetRole) (path : AssetPath) : Registration :=
  match role with
  | .flow => { registration with flow := path }
  | .driver => { registration with driver := path }

end Registration

structure SnapshotFile where
  content : String
  mode : Nat
  deriving DecidableEq

inductive CampaignAsset
  | nixStore (output : String)
  | snapshot (sha256 : String) (mode : Nat)
  deriving DecidableEq

structure AssetManifest where
  flow : CampaignAsset
  driver : CampaignAsset
  deriving DecidableEq

def AssetManifest.entry (manifest : AssetManifest) : AssetRole → CampaignAsset
  | .flow => manifest.flow
  | .driver => manifest.driver

/-- The directory of a generation. Without files it counts as absent. -/
structure GenerationDir where
  snapshots : AssetRole → Option SnapshotFile
  roots : AssetRole → Option String
  manifest : Option AssetManifest

def GenerationDir.empty : GenerationDir where
  snapshots _ := none
  roots _ := none
  manifest := none

/-- What the registry takes from its host. -/
class RegistryHost where
  /-- `sha256_file`, on the content. -/
  sha256 : String → String
  /-- The store output that a path is part of. -/
  containingStoreOutput : AssetPath → Option String
  /-- The file name of an authority: a hash of the repository and the pattern. -/
  registrationPath : String → String → String

variable [RegistryHost]

def Registration.path (registration : Registration) : String :=
  RegistryHost.registrationPath registration.codeRepository registration.worklistPattern

/-! ## Checks -/

/-- The asset of a role is there as its entry says, and the registration names it. -/
def EntryHolds (dir : GenerationDir) (registration : Registration) (role : AssetRole) :
    CampaignAsset → Prop
  | .nixStore output =>
    dir.roots role = some output ∧
      RegistryHost.containingStoreOutput (registration.asset role) = some output
  | .snapshot sha256 mode =>
    (∃ file, dir.snapshots role = some file ∧ RegistryHost.sha256 file.content = sha256 ∧
      file.mode = mode) ∧
    registration.asset role = .snapshot registration.generation role

/-- The generation that a registration names is complete and as its manifest says. -/
def Verifies (dir : GenerationDir) (registration : Registration) : Prop :=
  ∃ manifest, dir.manifest = some manifest ∧
    ∀ role, EntryHolds dir registration role (manifest.entry role)

/-- `verify_snapshot`. -/
def verifySnapshot (dir : GenerationDir) (role : AssetRole) (sha256 : String) (mode : Nat) : Bool :=
  match dir.snapshots role with
  | none => false
  | some file => file.mode = mode ∧ RegistryHost.sha256 file.content = sha256

/-- A role of `reconcile_manifest`: the directory with its root, the registration, and whether it has
changed. Without a result it fails. -/
def reconcileEntry (dir : GenerationDir) (registration : Registration) (role : AssetRole) :
    CampaignAsset → Option (GenerationDir × Registration × Bool)
  | .nixStore output =>
    if RegistryHost.containingStoreOutput (registration.asset role) = some output then
      some ({ dir with roots := Function.update dir.roots role (some output) }, registration, false)
    else none
  | .snapshot sha256 mode =>
    let expected := AssetPath.snapshot registration.generation role
    if verifySnapshot dir role sha256 mode then
      if registration.asset role = expected then some (dir, registration, false)
      else if (registration.asset role).isWithin registration.generation then none
      else some (dir, registration.setAsset role expected, true)
    else none

/-! ## Handles -/

/-- What a handle does with a generation that it has brought up: publish it, or go on with its list. -/
inductive Task
  | write
  /-- `registrations`: the path of the authority, the paths that are left and the generations that have
  been found. -/
  | adopt (path : String) (rest : List String) (live : List AssetGeneration)

/-- What has been prepared of a new generation. -/
structure Prepared where
  todo : List AssetRole
  entries : AssetRole → Option CampaignAsset

inductive Phase
  | idle
  /-- `ensure_asset_generation`, before its first step. -/
  | ensuring (registration : Registration) (task : Task)
  /-- `reconcile_manifest`, with the roles that are left. -/
  | checking (registration : Registration) (manifest : AssetManifest) (roles : List AssetRole)
      (changed : Bool) (task : Task)
  /-- What an interrupted call has left is removed. -/
  | clearing (registration : Registration) (task : Task)
  | preparing (registration : Registration) (prepared : Prepared) (task : Task)
  /-- The generation is there. -/
  | publishing (registration : Registration) (task : Task)
  /-- `write`, with its authority in place. -/
  | published
  /-- `live_generations`. -/
  | listing (rest : List String) (live : List AssetGeneration)
  /-- `registrations`, at the head of its loop. -/
  | adopting (rest : List String) (live : List AssetGeneration)
  /-- `cleanup_orphan_generations`, with the generation that is being removed. -/
  | collecting (live : List AssetGeneration) (current : Option AssetGeneration)
  /-- `remove`, before its first step. -/
  | removing (registration : Registration)
  /-- `remove`, without the authority. -/
  | dropping (generation : AssetGeneration)

structure RegistryWorld (Handle : Type) where
  authorities : Table String Registration
  dirs : AssetGeneration → GenerationDir
  phases : Handle → Phase

/-- A part of the directory of a generation. -/
inductive Part
  | root (role : AssetRole)
  | snapshot (role : AssetRole)
  | manifest

namespace GenerationDir

def remove (dir : GenerationDir) : Part → GenerationDir
  | .root role => { dir with roots := Function.update dir.roots role none }
  | .snapshot role => { dir with snapshots := Function.update dir.snapshots role none }
  | .manifest => { dir with manifest := none }

/-- Roots are removed before other files. -/
def removable (dir : GenerationDir) : Part → Bool
  | .root _ => true
  | .snapshot _ | .manifest => (dir.roots .flow).isNone && (dir.roots .driver).isNone

def isEmpty (dir : GenerationDir) : Bool :=
  dir.manifest.isNone && AssetRole.all.all fun role =>
    (dir.roots role).isNone && (dir.snapshots role).isNone

end GenerationDir

inductive Operation
  | write (registration : Registration)
  | registrations
  | remove (registration : Registration)

/-- The next durable step of a handle, where it can be taken. -/
inductive Move
  /-- Go on from what can be read. -/
  | next
  /-- Copy the asset of the next role, as it was read. -/
  | copy (content : String) (mode : Nat)
  /-- Begin to remove a generation that is not live. -/
  | collect (generation : AssetGeneration)
  /-- Remove a part of the generation that is being removed. -/
  | unlink (part : Part)

inductive RegistryEvent (Handle : Type)
  | start (handle : Handle) (operation : Operation)
  | move (handle : Handle) (move : Move)
  /-- The operation returns an error, or its process ends. -/
  | abandon (handle : Handle)

/-- The assets that are copied come before those that are rooted in the store. -/
def preparationOrder (registration : Registration) : List AssetRole :=
  AssetRole.all.filter
      (fun role => (RegistryHost.containingStoreOutput (registration.asset role)).isNone) ++
    AssetRole.all.filter
      fun role => (RegistryHost.containingStoreOutput (registration.asset role)).isSome

/-- The path that the authority will have for a role. -/
def authorityPath (registration : Registration) (role : AssetRole) : CampaignAsset → AssetPath
  | .nixStore _ => registration.asset role
  | .snapshot .. => .snapshot registration.generation role

/-- The end of `ensure_asset_generation`. A list goes on unless it has to publish. -/
def ensured (registration : Registration) (changed : Bool) : Task → Phase
  | .write => .publishing registration .write
  | .adopt path rest live =>
    if changed then .publishing registration (.adopt path rest live)
    else .adopting rest (live ++ [registration.generation])

omit [RegistryHost] in
/-- The generation that a handle is removing. -/
def Phase.removed : Phase → Option AssetGeneration
  | .clearing registration _ => some registration.generation
  | .collecting _ current => current
  | .dropping generation => some generation
  | _ => none

namespace RegistryWorld

variable {Handle : Type} [DecidableEq Handle] (world : RegistryWorld Handle)

omit [RegistryHost] in
def setPhase (handle : Handle) (phase : Phase) : RegistryWorld Handle :=
  { world with phases := Function.update world.phases handle phase }

omit [RegistryHost] [DecidableEq Handle] in
def setDir (generation : AssetGeneration) (dir : GenerationDir) : RegistryWorld Handle :=
  { world with dirs := Function.update world.dirs generation dir }

/-- The first step of `ensure_asset_generation`. -/
def lookAtManifest (handle : Handle) (registration : Registration) (task : Task) :
    RegistryWorld Handle :=
  match (world.dirs registration.generation).manifest with
  | some manifest => world.setPhase handle (.checking registration manifest AssetRole.all false task)
  | none =>
    if AssetRole.all.any fun role => (registration.asset role).isWithin registration.generation then
      world.setPhase handle .idle
    else world.setPhase handle (.clearing registration task)

def reconcileNext (handle : Handle) (registration : Registration) (manifest : AssetManifest)
    (role : AssetRole) (roles : List AssetRole) (changed : Bool) (task : Task) : RegistryWorld Handle :=
  match reconcileEntry (world.dirs registration.generation) registration role (manifest.entry role) with
  | none => world.setPhase handle .idle
  | some (dir, registration', changed') =>
    (world.setDir registration.generation dir).setPhase handle
      (.checking registration' manifest roles (changed || changed') task)

/-- The root of the next asset, which is in the store. -/
def addRoot (handle : Handle) (registration : Registration) (role : AssetRole) (todo : List AssetRole)
    (entries : AssetRole → Option CampaignAsset) (task : Task) : RegistryWorld Handle :=
  match RegistryHost.containingStoreOutput (registration.asset role) with
  | none => world
  | some output =>
    let dir := world.dirs registration.generation
    (world.setDir registration.generation
        { dir with roots := Function.update dir.roots role (some output) }).setPhase handle
      (.preparing registration ⟨todo, Function.update entries role (some (.nixStore output))⟩ task)

/-- `snapshot_asset` of the next asset: what is written is what the digest is of. -/
def copyAsset (handle : Handle) (registration : Registration) (role : AssetRole) (todo : List AssetRole)
    (entries : AssetRole → Option CampaignAsset) (task : Task) (content : String) (mode : Nat) :
    RegistryWorld Handle :=
  match RegistryHost.containingStoreOutput (registration.asset role) with
  | some _ => world
  | none =>
    let dir := world.dirs registration.generation
    let file : SnapshotFile := ⟨content, mode &&& 0o555⟩
    let entry := CampaignAsset.snapshot (RegistryHost.sha256 content) file.mode
    (world.setDir registration.generation
        { dir with snapshots := Function.update dir.snapshots role (some file) }).setPhase handle
      (.preparing registration ⟨todo, Function.update entries role (some entry)⟩ task)

/-- The manifest is written last. -/
def writeManifest (handle : Handle) (registration : Registration)
    (entries : AssetRole → Option CampaignAsset) (task : Task) : RegistryWorld Handle :=
  match entries .flow, entries .driver with
  | some flow, some driver =>
    let dir := world.dirs registration.generation
    let registration' : Registration :=
      { registration with
        flow := authorityPath registration .flow flow
        driver := authorityPath registration .driver driver }
    (world.setDir registration.generation { dir with manifest := some ⟨flow, driver⟩ }).setPhase handle
      (ensured registration' (registration' ≠ registration) task)
  | _, _ => world

def publish (handle : Handle) (registration : Registration) : Task → RegistryWorld Handle
  | .write =>
    { world with
      authorities := world.authorities.insert registration.path registration
      phases := Function.update world.phases handle .published }
  | .adopt path rest live =>
    { world with
      authorities := world.authorities.insert path registration
      phases := Function.update world.phases handle
        (.adopting rest (live ++ [registration.generation])) }

/-- A step from what can be read. -/
def next (handle : Handle) : Phase → RegistryWorld Handle
  | .idle => world
  | .ensuring registration task => world.lookAtManifest handle registration task
  | .checking registration _ [] changed task =>
    world.setPhase handle (ensured registration changed task)
  | .checking registration manifest (role :: roles) changed task =>
    world.reconcileNext handle registration manifest role roles changed task
  | .clearing registration task =>
    if (world.dirs registration.generation).isEmpty then
      world.setPhase handle
        (.preparing registration ⟨preparationOrder registration, fun _ => none⟩ task)
    else world
  | .preparing registration ⟨[], entries⟩ task => world.writeManifest handle registration entries task
  | .preparing registration ⟨role :: todo, entries⟩ task =>
    world.addRoot handle registration role todo entries task
  | .publishing registration task => world.publish handle registration task
  | .published => world.setPhase handle (.listing world.authorities.keys [])
  | .listing [] live | .adopting [] live => world.setPhase handle (.collecting live none)
  | .listing (path :: rest) live =>
    match world.authorities.get? path with
    | none => world.setPhase handle .idle
    | some registration => world.setPhase handle (.listing rest (live ++ [registration.generation]))
  | .adopting (path :: rest) live =>
    match world.authorities.get? path with
    | none => world.setPhase handle .idle
    | some registration => world.setPhase handle (.ensuring registration (.adopt path rest live))
  | .collecting _ none => world.setPhase handle .idle
  | .collecting live (some generation) =>
    if (world.dirs generation).isEmpty then world.setPhase handle (.collecting live none) else world
  | .removing registration =>
    { world with
      authorities := world.authorities.erase registration.path
      phases := Function.update world.phases handle (.dropping registration.generation) }
  | .dropping generation =>
    if (world.dirs generation).isEmpty then
      world.setPhase handle (.adopting world.authorities.keys [])
    else world

omit [RegistryHost] in
def startPhase : Operation → Phase
  | .write registration => .ensuring registration .write
  | .registrations => .adopting world.authorities.keys []
  | .remove registration => .removing registration

def step : RegistryEvent Handle → RegistryWorld Handle
  | .start handle operation =>
    match world.phases handle with
    | .idle => world.setPhase handle (world.startPhase operation)
    | _ => world
  | .move handle .next => world.next handle (world.phases handle)
  | .move handle (.copy content mode) =>
    match world.phases handle with
    | .preparing registration ⟨role :: todo, entries⟩ task =>
      world.copyAsset handle registration role todo entries task content mode
    | _ => world
  | .move handle (.collect generation) =>
    match world.phases handle with
    | .collecting live none =>
      if generation ∈ live then world
      else world.setPhase handle (.collecting live (some generation))
    | _ => world
  | .move handle (.unlink part) =>
    match (world.phases handle).removed with
    | none => world
    | some generation =>
      if (world.dirs generation).removable part then
        world.setDir generation ((world.dirs generation).remove part)
      else world
  | .abandon handle => world.setPhase handle .idle

/-- No campaign has been armed. -/
def initial (Handle : Type) : RegistryWorld Handle where
  authorities := ∅
  dirs _ := .empty
  phases _ := .idle

def run (events : List (RegistryEvent Handle)) : RegistryWorld Handle :=
  events.foldl step (initial Handle)

end RegistryWorld

end Tally.Campaign
