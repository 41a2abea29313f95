import ObjCSword.Foundation.NSDictionary
import Mathlib.Logic.Function.Basic

/-!
# Install sources and their manager

`SwordInstallSource` (SwordInstallSource.mm) is a handle on an engine object, a
`sword::InstallSource`; `SwordInstallSourceManager` (SwordInstallSourceManager.mm) works on the map
`swInstallMgr->sources` from captions to those objects. Nothing is copied on the way: a handle the
caller made, the wrapper `allInstallSources` makes of the same source and the map's entry all name
ONE object, and every setter writes to it. The model therefore keeps the objects in a memory and
lets handles and map entries be references into it.

The `reload` flag of add and remove is not read by the source and stands here unread as well.
-/

namespace ObjCSword

/-- The address of an engine object. -/
abbrev Ref := Nat

/-- A `sword::InstallSource`: the fields the wrapper reads and writes. -/
structure InstallSource where
  caption : String
  type : String
  source : String
  directory : String
deriving DecidableEq, Repr

/-- The engine objects by address. -/
abbrev Memory := Ref → InstallSource

/-- The wrapper object: the engine object it names, and whether it frees it with itself. -/
structure SwordInstallSource where
  installSource : Ref
  deleteOnDealloc : Bool
deriving DecidableEq, Repr

/-- `INSTALLSOURCE_TYPE_FTP`, the type a caller gives. -/
def INSTALLSOURCE_TYPE_FTP : String := "FTP"

/-- `INSTALLSOURCE_SECTION_TYPE_FTP`, the type that is stored. -/
def INSTALLSOURCE_SECTION_TYPE_FTP : String := "FTPSource"

/-- `INSTALLSOURCE_SECTION_TYPE_HTTP`, the type that is stored. -/
def INSTALLSOURCE_SECTION_TYPE_HTTP : String := "HTTPSource"

namespace SwordInstallSource

/-- `initWithSource:` wraps an existing engine object and never frees it. -/
def initWithSource (is : Ref) : SwordInstallSource := ⟨is, false⟩

def caption (is : SwordInstallSource) (mem : Memory) : String := (mem is.installSource).caption

def type (is : SwordInstallSource) (mem : Memory) : String := (mem is.installSource).type

def source (is : SwordInstallSource) (mem : Memory) : String := (mem is.installSource).source

def directory (is : SwordInstallSource) (mem : Memory) : String := (mem is.installSource).directory

def setCaption (is : SwordInstallSource) (aCaption : String) (mem : Memory) : Memory :=
  Function.update mem is.installSource { mem is.installSource with caption := aCaption }

def setType (is : SwordInstallSource) (aType : String) (mem : Memory) : Memory :=
  Function.update mem is.installSource { mem is.installSource with type := aType }

def setSource (is : SwordInstallSource) (aSource : String) (mem : Memory) : Memory :=
  Function.update mem is.installSource { mem is.installSource with source := aSource }

def setDirectory (is : SwordInstallSource) (aDir : String) (mem : Memory) : Memory :=
  Function.update mem is.installSource { mem is.installSource with directory := aDir }

end SwordInstallSource

/-- The manager's state: the engine objects, and `swInstallMgr->sources`. -/
structure SwordInstallSourceManager where
  memory : Memory
  sources : Dictionary Ref

namespace SwordInstallSourceManager

open SwordInstallSource

/-- One turn of the loop of `allInstallSources`: wrap the object, give an FTP section type back its
caller's spelling (through the wrapper, so in the stored object itself), and list the wrapper under
its caption. -/
def listSource (acc : Dictionary SwordInstallSource × Memory) (sis : Ref) :
    Dictionary SwordInstallSource × Memory :=
  let is := initWithSource sis
  let mem :=
    if is.type acc.2 = INSTALLSOURCE_SECTION_TYPE_FTP then is.setType INSTALLSOURCE_TYPE_FTP acc.2
    else acc.2
  (acc.1.insert (is.caption mem) is, mem)

/-- `allInstallSources`. -/
def allInstallSources (m : SwordInstallSourceManager) :
    Dictionary SwordInstallSource × SwordInstallSourceManager :=
  let out := (m.sources.entries.map Sigma.snd).foldl listSource (∅, m.memory)
  (out.1, { m with memory := out.2 })

/-- `addInstallSource:reload:`. The caller's handle comes back no longer owning its object. -/
def addInstallSource (m : SwordInstallSourceManager) (is : SwordInstallSource) (_doReload : Bool) :
    SwordInstallSourceManager × SwordInstallSource :=
  let mem :=
    if is.type m.memory = INSTALLSOURCE_TYPE_FTP then
      is.setType INSTALLSOURCE_SECTION_TYPE_FTP m.memory
    else is.setType INSTALLSOURCE_SECTION_TYPE_HTTP m.memory
  let is := { is with deleteOnDealloc := false }
  let swIs := is.installSource
  ({ memory := mem, sources := m.sources.insert (mem swIs).caption swIs }, is)

/-- `removeInstallSource:reload:`. -/
def removeInstallSource (m : SwordInstallSourceManager) (is : SwordInstallSource)
    (_doReload : Bool) : SwordInstallSourceManager :=
  let swIs := is.installSource
  { m with sources := m.sources.erase (m.memory swIs).caption }

/-- `updateInstallSource:`, first remove, then add again. -/
def updateInstallSource (m : SwordInstallSourceManager) (is : SwordInstallSource) :
    SwordInstallSourceManager × SwordInstallSource :=
  addInstallSource (removeInstallSource m is false) is false

end SwordInstallSourceManager

/-! ## Runs -/

/-- A setter a caller sends to a source object between calls of the manager. -/
inductive SourceEdit where
  | setCaption (aCaption : String)
  | setSource (aSource : String)
  | setDirectory (aDir : String)
deriving DecidableEq, Repr

/-- The setter's effect on the object behind the handle. -/
def SourceEdit.apply (is : SwordInstallSource) (mem : Memory) : SourceEdit → Memory
  | .setCaption c => is.setCaption c mem
  | .setSource s => is.setSource s mem
  | .setDirectory d => is.setDirectory d mem

/-- What a client does with the manager. An update comes with the edits made on its source since
the last call; `list` is `allInstallSources`. -/
inductive SourceCall where
  | add (is : SwordInstallSource) (doReload : Bool)
  | remove (is : SwordInstallSource) (doReload : Bool)
  | update (is : SwordInstallSource) (edits : List SourceEdit)
  | list
deriving DecidableEq, Repr

namespace SwordInstallSourceManager

/-- The edits of one source, made before the manager is called. -/
def edit (m : SwordInstallSourceManager) (is : SwordInstallSource) (edits : List SourceEdit) :
    SwordInstallSourceManager :=
  { m with memory := edits.foldl (SourceEdit.apply is) m.memory }

/-- One call of a client. -/
def step (m : SwordInstallSourceManager) : SourceCall → SwordInstallSourceManager
  | .add is doReload => (m.addInstallSource is doReload).1
  | .remove is doReload => m.removeInstallSource is doReload
  | .update is edits => ((m.edit is edits).updateInstallSource is).1
  | .list => m.allInstallSources.2

/-- What `saveConfig` has the engine write: the stored sources, by their keys. -/
def saved (m : SwordInstallSourceManager) (key : String) : Option InstallSource :=
  (AList.lookup key m.sources).map m.memory

end SwordInstallSourceManager

end ObjCSword
