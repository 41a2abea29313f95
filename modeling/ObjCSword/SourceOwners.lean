import ObjCSword.SwordInstallSource

/-!
# Who frees an install source

A `SwordInstallSource` that was made by `init` deletes its engine object when it is deallocated;
`addInstallSource:reload:` takes that from it, since the engine's manager deletes what it stores
when it is deleted itself; and a wrapper made by `initWithSource:` never deletes anything. Here the
life of the wrappers is followed, from `init` to `dealloc` (SwordInstallSource.mm), between the
calls of the manager (SwordInstallSourceManager.mm).

The wrappers are numbered as they are made. A wrapper that was deallocated is sent no message. A
client could also set the flag, or call `initWithSource:` with an engine object of its own; both
are left out, as are the calls that read the configuration or the master list. The address of an
engine object is not used again.
-/

namespace ObjCSword

/-- The engine objects and the wrappers there are. -/
structure SourceOwners where
  manager : SwordInstallSourceManager
  /-- The address of the next engine object. -/
  next : Ref
  /-- The engine objects that were deleted, the last one first. -/
  freed : List Ref
  wrappers : Nat → Option SwordInstallSource
  /-- How many wrappers were made. -/
  count : Nat

/-- What a client does with the wrappers, by their numbers. -/
inductive WrapperCall where
  | init
  | initWithType (aType : String)
  | set (w : Nat) (edit : SourceEdit)
  | setType (w : Nat) (aType : String)
  | addInstallSource (w : Nat) (doReload : Bool)
  | removeInstallSource (w : Nat) (doReload : Bool)
  | updateInstallSource (w : Nat)
  | allInstallSources
  | dealloc (w : Nat)
deriving DecidableEq, Repr

namespace SourceOwners

open SwordInstallSourceManager

/-- A new engine object, `sword::InstallSource("", "")`. -/
def newInstallSource (aType : String) : InstallSource := ⟨"", aType, "", ""⟩

/-- There are no wrappers yet, and the engine has made and stored a source for each entry of its
configuration. -/
def initial (configured : List InstallSource) : SourceOwners where
  manager :=
    { memory := fun r => configured.getD r (newInstallSource "")
      sources := (List.range configured.length).foldl
        (fun sources r => sources.insert (configured.getD r (newInstallSource "")).caption r) ∅ }
  next := configured.length
  freed := []
  wrappers := fun _ => none
  count := 0

/-- There is one more wrapper. -/
def wrap (s : SourceOwners) (is : SwordInstallSource) : SourceOwners :=
  { s with wrappers := Function.update s.wrappers s.count (some is), count := s.count + 1 }

/-- `init`, and `initWithType:`: a wrapper of a new engine object. -/
def initWithType (s : SourceOwners) (aType : String) : SourceOwners :=
  let swInstallSource := s.next
  wrap { s with
    manager := { s.manager with
      memory := Function.update s.manager.memory swInstallSource (newInstallSource aType) }
    next := s.next + 1 } ⟨swInstallSource, true⟩

/-- `dealloc` of a wrapper. -/
def dealloc (s : SourceOwners) (w : Nat) (is : SwordInstallSource) : SourceOwners :=
  { s with
    wrappers := Function.update s.wrappers w none
    freed := if is.deleteOnDealloc then is.installSource :: s.freed else s.freed }

/-- A message to a wrapper, or with it. -/
def send (s : SourceOwners) (w : Nat) (f : SwordInstallSource → SourceOwners) : SourceOwners :=
  match s.wrappers w with
  | some is => f is
  | none => s

/-- One call. -/
def step (s : SourceOwners) : WrapperCall → SourceOwners
  | .init => s.initWithType ""
  | .initWithType aType => s.initWithType aType
  | .set w edit => s.send w fun is =>
    { s with manager := { s.manager with memory := edit.apply is s.manager.memory } }
  | .setType w aType => s.send w fun is =>
    { s with manager := { s.manager with memory := is.setType aType s.manager.memory } }
  | .addInstallSource w doReload => s.send w fun is =>
    let (m, is) := s.manager.addInstallSource is doReload
    { s with manager := m, wrappers := Function.update s.wrappers w (some is) }
  | .removeInstallSource w doReload => s.send w fun is =>
    { s with manager := s.manager.removeInstallSource is doReload }
  | .updateInstallSource w => s.send w fun is =>
    let (m, is) := s.manager.updateInstallSource is
    { s with manager := m, wrappers := Function.update s.wrappers w (some is) }
  | .allInstallSources =>
    let m := s.manager.allInstallSources.2
    (s.manager.sources.entries.map Sigma.snd).foldl
      (fun s sis => s.wrap (.initWithSource sis)) { s with manager := m }
  | .dealloc w => s.send w (s.dealloc w)

/-- The calls of a client, one after the other. -/
def run (s : SourceOwners) (calls : List WrapperCall) : SourceOwners := calls.foldl step s

/-- What the engine deletes with `swInstallMgr`, when the manager is deallocated: for each key the
object that is stored there. -/
def deletedWithManager (m : SwordInstallSourceManager) : List Ref := m.sources.entries.map Sigma.snd

/-- How often an engine object is deleted in all, when the manager is deallocated after the last
wrapper. -/
def deletions (s : SourceOwners) (r : Ref) : Nat :=
  s.freed.count r + (deletedWithManager s.manager).count r

end SourceOwners

end ObjCSword
