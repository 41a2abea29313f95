import ObjCSword.Foundation.NSString
import ObjCSword.Foundation.NSDictionary
import ObjCSword.Lib.FileTree

/-!
# The folder of the modules

`SwordCommentary` makes a new module in a folder of its own inside the folder of the modules
(SwordCommentary.mm), and a new `SwordManager` hands the engine that folder and the folders in it
(SwordManager.mm). Paths are followed by the names in them, from the root, without links; a name
that is one component of a path is a `FileName`, and such are the names of the modules. What the
engine reads of a folder and what files it makes for an empty module are parameters. No method looks
at the errors of the file manager, which does nothing then.
-/

namespace ObjCSword

open NSString

/-- No separator, and not the end of a text in C. -/
def isFileNameCharacter (c : Char) : Bool := c ≠ '/' && c.toNat ≠ 0

/-- A name in a folder. -/
structure FileName where
  name : String
  nonempty : name ≠ ""
  noDots : name ≠ "." ∧ name ≠ ".."
  plain : name.toList.all isFileNameCharacter = true
deriving DecidableEq

/-- The name with an extension behind it. -/
def FileName.append (n : FileName) (extension : String) (hlong : 2 < extension.toList.length)
    (hplain : extension.toList.all isFileNameCharacter = true) : FileName where
  name := n.name ++ extension
  nonempty := by
    intro h
    have hlength := congrArg (fun s => s.toList.length) h
    rw [String.toList_append, List.length_append, show "".toList.length = 0 from rfl] at hlength
    omega
  noDots := by
    constructor <;>
    · intro h
      have hlength := congrArg (fun s => s.toList.length) h
      simp only [String.toList_append, List.length_append] at hlength
      have hdots : ".".toList.length = 1 ∧ "..".toList.length = 2 := by decide
      omega
  plain := by
    rw [String.toList_append, List.all_append, n.plain, hplain, Bool.and_self]

abbrev Path := List FileName

/-- `sword::SWConfig`, by sections and keys. -/
abbrev SWConfig := Dictionary (Dictionary String)

/-- What a file holds. -/
inductive FileContent where
  | config (conf : SWConfig)
  | data (bytes : List UInt8)

abbrev Files := Lib.FileTree.Tree FileName FileContent

/-- `fileExistsAtPath:`. -/
def Files.fileExistsAtPath (fm : Files) (path : Path) : Bool := (fm.lookup path).isSome

/-- `fileExistsAtPath:isDirectory:`, for a directory. -/
def Files.isDirectory (fm : Files) (path : Path) : Bool := fm.lookup path = some .directory

/-- `sword::RawFiles::createModule`: files for an empty module, in a directory that is there. -/
structure Sword.RawFiles where
  createModule : Path → Files → Files
  elsewhere : ∀ path fm other, fm.lookup path = some .directory → ¬ path <+: other →
    (createModule path fm).lookup other = fm.lookup other
  directory : ∀ path fm, fm.lookup path = some .directory →
    (createModule path fm).lookup path = some .directory

/-- What is asked of a `sword::SWMgr`, which reads files. -/
structure Sword.SWMgr (σ : Type) where
  new : Path → Files → σ
  augmentModules : σ → Path → Files → σ

open Sword

def modsd : FileName := ⟨"mods.d", by decide, by decide, by decide⟩
def modulesDir : FileName := ⟨"modules", by decide, by decide, by decide⟩
def installMgr : FileName := ⟨"InstallMgr", by decide, by decide, by decide⟩

namespace SwordCommentary

def comments : FileName := ⟨"comments", by decide, by decide, by decide⟩
def rawfiles : FileName := ⟨"rawfiles", by decide, by decide, by decide⟩

/-- The name of the folder of a module. -/
def swd (aName : FileName) : FileName := aName.append ".swd" (by decide) (by decide)

def conf (aName : FileName) : FileName := aName.append ".conf" (by decide) (by decide)

/-- The entries of the new configuration. -/
def newConf (aName : FileName) : SWConfig :=
  let entries : Dictionary String := ∅
  let entries := entries.insert "DataPath" ("./modules/comments/rawfiles/" ++ aName.name)
  let entries := entries.insert "ModDrv" "RawFiles"
  let entries := entries.insert "SourceType" "ThML"
  let entries := entries.insert "Editable" "YES"
  let entries := entries.insert "About" "This module allows you to store your own commentary."
  (∅ : SWConfig).insert aName.name entries

/-- `createCommentaryWithName:`. The answer is nil where there is something at the path already. -/
def createCommentaryWithName (rawFiles : RawFiles) (defaultModulePath : Path) (aName : FileName)
    (fm : Files) : Option Path × Files :=
  let modPath := defaultModulePath ++ [swd aName]
  if fm.fileExistsAtPath modPath then (none, fm)
  else
    -- create folder
    let fm := fm.createDirectory modPath
    -- create mods.d folder
    let modsdPath := modPath ++ [modsd]
    let fm := fm.createDirectory modsdPath
    -- create module folder
    let dataPath := modPath ++ [modulesDir]
    let fm := fm.createDirectory dataPath
    let dataPath := dataPath ++ [comments]
    let fm := fm.createDirectory dataPath
    let dataPath := dataPath ++ [rawfiles]
    let fm := fm.createDirectory dataPath
    let dataPath := dataPath ++ [aName]
    let fm := fm.createDirectory dataPath
    let fm := rawFiles.createModule dataPath fm
    let fm := fm.writeFile (modsdPath ++ [conf aName]) (.config (newConf aName))
    (some modPath, fm)

end SwordCommentary

namespace SwordManager

/-- The condition on a name in the folder of the modules. -/
def isModuleFolder (subDir : FileName) : Bool :=
  !hasPrefix subDir.name "." && subDir ≠ installMgr && subDir ≠ modsd && subDir ≠ modulesDir

/-- The folders that the engine's manager is augmented with. -/
def augmentedFolders (modulesPath : Path) (fm : Files) : List Path :=
  (((fm.children modulesPath).filter isModuleFolder).map fun subDir =>
    modulesPath ++ [subDir]).filter fm.isDirectory

/-- `createModuleFolderTemplate`. -/
def createModuleFolderTemplate (modulesPath : Path) (fm : Files) : Files :=
  let fm := fm.createDirectory modulesPath
  let fm := fm.createDirectory (modulesPath ++ [modsd])
  fm.createDirectory (modulesPath ++ [modulesDir])

/-- `initManager`. A path that is nil or empty is `none`. -/
def initManager {σ : Type} (E : SWMgr σ) (modulesPath : Option Path) (fm : Files) :
    Option σ × Files :=
  match modulesPath with
  | none => (none, fm)
  | some modulesPath =>
    let fm :=
      if fm.fileExistsAtPath modulesPath then fm else createModuleFolderTemplate modulesPath fm
    let swManager := E.new modulesPath fm
    let swManager := (augmentedFolders modulesPath fm).foldl
      (fun swManager fullSubDir => E.augmentModules swManager fullSubDir fm) swManager
    (some swManager, fm)

end SwordManager

/-- What is done with the folder of the modules. -/
inductive FolderCall where
  | createCommentaryWithName (aName : FileName)
  | initManager
deriving DecidableEq

/-- One call. -/
def FolderCall.step {σ : Type} (rawFiles : RawFiles) (E : SWMgr σ) (modulesPath : Path)
    (fm : Files) : FolderCall → Files
  | .createCommentaryWithName aName =>
    (SwordCommentary.createCommentaryWithName rawFiles modulesPath aName fm).2
  | .initManager => (SwordManager.initManager E (some modulesPath) fm).2

end ObjCSword
