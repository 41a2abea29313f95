import Mathlib.Logic.Function.Basic
import ObjCSword.SwordFilter
import ObjCSword.SwordModule

/-!
# The manager

`SwordManager` (SwordManager.mm) hands out modules. The wrapper objects are made anew by each call,
with a lock of their own, while the module they wrap, its filters included, is the one that the
engine's manager keeps. `Modules` is a `std::map`, so looking up a name that it does not hold puts a
null pointer under that name.
-/

namespace ObjCSword

open Sword

def SWMOD_TYPES_BIBLES : String := "Biblical Texts"
def SWMOD_TYPES_COMMENTARIES : String := "Commentaries"
def SWMOD_TYPES_DICTIONARIES : String := "Lexicons / Dictionaries"
def SWMOD_TYPES_GENBOOKS : String := "Generic Books"

def SWMOD_CONFENTRY_CATEGORY : String := "Category"
def SWMOD_CATEGORY_DAILYDEVS : String := "Daily Devotional"
def SWMOD_CATEGORY_GLOSSARIES : String := "Glossaries"
def SWMOD_CATEGORY_CULTS : String := "Cults / Unorthodox / Questionable Material"
def SWMOD_CATEGORY_ESSEYS : String := "Essays"
def SWMOD_CATEGORY_MAPS : String := "Maps"
def SWMOD_CATEGORY_IMAGES : String := "Images"

/-- `ModuleType`. -/
inductive ModuleType where
  | all
  | bible
  | commentary
  | dictionary
  | genbook
deriving DecidableEq, Repr

/-- `ModuleCategory`, of a module whose category was asked for. -/
inductive ModuleCategory where
  | noCategory
  | dailyDevotion
  | maps
  | glossary
  | images
  | essays
  | cults
deriving DecidableEq, Repr

/-- A wrapper object: the module it wraps and its lock, by their addresses, and its type. -/
structure SwordModuleObject where
  swModule : Nat
  moduleLock : Nat
  type : ModuleType
deriving DecidableEq, Repr

/-- What the calls of a manager change: `Modules`, with a null pointer as `none`; the modules, by
their addresses; and the next address that is free. The engine keeps a module under its own name. -/
structure SwordManager (Key : Type) where
  modules : Dictionary (Option Nat)
  memory : Nat → ManagedModule Key
  next : Nat
  name_eq : ∀ name ref, AList.lookup name modules = some (some ref) → (memory ref).name = name

namespace SwordModule

/-- `moduleTypeForModuleTypeString:`. -/
def moduleTypeForModuleTypeString (typeStr : String) : ModuleType :=
  if typeStr = SWMOD_TYPES_BIBLES then .bible
  else if typeStr = SWMOD_TYPES_COMMENTARIES then .commentary
  else if typeStr = SWMOD_TYPES_DICTIONARIES then .dictionary
  else if typeStr = SWMOD_TYPES_GENBOOKS then .genbook
  else .bible

/-- `moduleCategoryForModuleCategoryString:`. -/
def moduleCategoryForModuleCategoryString (categoryStr : String) : ModuleCategory :=
  if categoryStr = SWMOD_CATEGORY_MAPS then .maps
  else if categoryStr = SWMOD_CATEGORY_IMAGES then .images
  else if categoryStr = SWMOD_CATEGORY_DAILYDEVS then .dailyDevotion
  else if categoryStr = SWMOD_CATEGORY_ESSEYS then ModuleCategory.essays
  else if categoryStr = SWMOD_CATEGORY_GLOSSARIES then .glossary
  else if categoryStr = SWMOD_CATEGORY_CULTS then .cults
  else .noCategory

/-- `category`, of a new object. -/
def category {Key : Type} (M : SWModule Key) : ModuleCategory :=
  moduleCategoryForModuleCategoryString
    ((configFileEntryForConfigKey M SWMOD_CONFENTRY_CATEGORY).getD "")

end SwordModule

namespace SwordManager

variable {Key : Type}

/-! ## Writing to the engine's manager -/

/-- A null pointer, under a name that is not there. -/
def insertNull (mgr : SwordManager Key) (name : String) : SwordManager Key :=
  { mgr with
    modules := mgr.modules.insert name none
    name_eq := by
      intro other ref h
      rw [Dictionary.lookup_insert] at h
      split at h
      · cases h
      · exact mgr.name_eq other ref h }

/-- A module is changed, but not its name. -/
def update (mgr : SwordManager Key) (ref : Nat) (m : ManagedModule Key)
    (hname : m.name = (mgr.memory ref).name) : SwordManager Key :=
  { mgr with
    memory := Function.update mgr.memory ref m
    name_eq := by
      intro name other h
      rw [← mgr.name_eq name other h]
      by_cases hother : other = ref
      · rw [hother, Function.update_self, hname]
      · rw [Function.update_of_ne hother] }

/-- An object takes the next address. -/
def allocate (mgr : SwordManager Key) : Nat × SwordManager Key :=
  (mgr.next, { mgr with next := mgr.next + 1 })

/-! ## Filters -/

/-- `-[SwordModule setRenderFilter:]`. -/
def setRenderFilter (ref : Nat) (aFilter : SWFilter) (mgr : SwordManager Key) : SwordManager Key :=
  mgr.update ref (((mgr.memory ref).removeRenderFilter aFilter).addRenderFilter aFilter) rfl

/-- `-[SwordModule setStripFilter:]`. -/
def setStripFilter (ref : Nat) (aFilter : SWFilter) (mgr : SwordManager Key) : SwordManager Key :=
  mgr.update ref ((mgr.memory ref).addStripFilter aFilter) rfl

/-- A new filter object of the provider's. -/
def newFilter (cls : FilterClass) (mgr : SwordManager Key) : SWFilter × SwordManager Key :=
  let (address, mgr) := mgr.allocate
  (⟨address, cls⟩, mgr)

/-- A new render filter and a new strip filter of these classes, set one after the other. -/
def setBothFilters (ref : Nat) (render strip : FilterClass) (mgr : SwordManager Key) :
    SwordManager Key :=
  let (aFilter, mgr) := newFilter render mgr
  let mgr := setRenderFilter ref aFilter mgr
  let (aFilter, mgr) := newFilter strip mgr
  setStripFilter ref aFilter mgr

/-- `setFiltersToModule:`. -/
def setFiltersToModule (filterProvider : FilterProvider) (ref : Nat) (mgr : SwordManager Key) :
    SwordManager Key :=
  -- only add if empty
  if (mgr.memory ref).renderFilters ≠ [] then mgr
  else
    match (mgr.memory ref).markup with
    | .gbf =>
      setBothFilters ref filterProvider.newGbfRenderFilter filterProvider.newGbfPlainFilter mgr
    | .thml =>
      setBothFilters ref filterProvider.newThmlRenderFilter filterProvider.newThmlPlainFilter mgr
    | .osis =>
      setBothFilters ref filterProvider.newOsisRenderFilter filterProvider.newOsisPlainFilter mgr
    | .tei =>
      setBothFilters ref filterProvider.newTeiRenderFilter filterProvider.newTeiPlainFilter mgr
    | .plain | .other =>
      let (aFilter, mgr) := newFilter filterProvider.newOsisPlainFilter mgr
      setRenderFilter ref aFilter mgr

/-! ## Module access -/

/-- `getSWModuleWithName:`. -/
def getSWModuleWithName (moduleName : String) (mgr : SwordManager Key) :
    Option Nat × SwordManager Key :=
  match AList.lookup moduleName mgr.modules with
  | some mod => (mod, mgr)
  | none => (none, mgr.insertNull moduleName)

/-- `+[SwordModule moduleForType:swModule:]`: a new object with a new lock. Its class is the one of
the type. -/
def moduleForType (mod : Nat) (mgr : SwordManager Key) : SwordModuleObject × SwordManager Key :=
  let aType := SwordModule.moduleTypeForModuleTypeString (mgr.memory mod).type
  let (moduleLock, mgr) := mgr.allocate
  (⟨mod, moduleLock, aType⟩, mgr)

/-- `moduleWithName:`. -/
def moduleWithName (filterProvider : FilterProvider) (name : String) (mgr : SwordManager Key) :
    Option SwordModuleObject × SwordManager Key :=
  let (mod, mgr) := getSWModuleWithName name mgr
  match mod with
  | none => (none, mgr)
  | some mod =>
    let (swMod, mgr) := moduleForType mod mgr
    (some swMod, setFiltersToModule filterProvider mod mgr)

/-- `numberOfModules`. -/
def numberOfModules (mgr : SwordManager Key) : Nat := mgr.modules.entries.length

/-- One turn of the loop of `allModules`, for an entry of `Modules`. A module is kept under its own
name, so it is found there. -/
def addModule (filterProvider : FilterProvider)
    (listed : Dictionary SwordModuleObject × SwordManager Key) (entry : Option Nat) :
    Dictionary SwordModuleObject × SwordManager Key :=
  match entry with
  | none => listed
  | some mod =>
    let (swMod, mgr) := moduleWithName filterProvider (listed.2.memory mod).name listed.2
    match swMod with
    | some swMod => (listed.1.insert (mgr.memory swMod.swModule).name swMod, mgr)
    | none => (listed.1, mgr)

/-- `allModules`. -/
def allModules (filterProvider : FilterProvider) (mgr : SwordManager Key) :
    Dictionary SwordModuleObject × SwordManager Key :=
  (mgr.modules.entries.map (·.2)).foldl (addModule filterProvider) (∅, mgr)

/-- `moduleNames`. -/
def moduleNames (filterProvider : FilterProvider) (mgr : SwordManager Key) :
    List String × SwordManager Key :=
  let (dict, mgr) := allModules filterProvider mgr
  (dict.keys, mgr)

/-- The modules of `allModules` that a test lets through, sorted by their names. -/
def modulesFor (filterProvider : FilterProvider)
    (test : SwordManager Key → SwordModuleObject → Bool) (mgr : SwordManager Key) :
    List SwordModuleObject × SwordManager Key :=
  let (dict, mgr) := allModules filterProvider mgr
  let ret := (dict.entries.map (·.2)).filter (test mgr)
  (ret.mergeSort fun a b => (mgr.memory a.swModule).name ≤ (mgr.memory b.swModule).name, mgr)

/-- `modulesForFeature:`. -/
def modulesForFeature (filterProvider : FilterProvider) (feature : String)
    (mgr : SwordManager Key) : List SwordModuleObject × SwordManager Key :=
  modulesFor filterProvider
    (fun mgr mod => SwordModule.hasFeature (mgr.memory mod.swModule).toSWModule feature) mgr

/-- `modulesForType:`. -/
def modulesForType (filterProvider : FilterProvider) (type : ModuleType) (mgr : SwordManager Key) :
    List SwordModuleObject × SwordManager Key :=
  modulesFor filterProvider (fun _ mod => mod.type = type ∨ type = .all) mgr

/-- `modulesForCategory:`. -/
def modulesForCategory (filterProvider : FilterProvider) (cat : ModuleCategory)
    (mgr : SwordManager Key) : List SwordModuleObject × SwordManager Key :=
  modulesFor filterProvider
    (fun mgr mod => SwordModule.category (mgr.memory mod.swModule).toSWModule = cat) mgr

end SwordManager

/-- The calls a client makes on a manager. -/
inductive ManagerCall where
  | moduleWithName (name : String)
  | getSWModuleWithName (name : String)
  | allModules
  | moduleNames
  | modulesForType (type : ModuleType)
  | modulesForFeature (feature : String)
  | modulesForCategory (cat : ModuleCategory)

/-- One call: the wrapper objects it hands out, and the manager then. -/
def SwordManager.call {Key : Type} (filterProvider : FilterProvider) (mgr : SwordManager Key) :
    ManagerCall → List SwordModuleObject × SwordManager Key
  | .moduleWithName name =>
    let (swMod, mgr) := moduleWithName filterProvider name mgr
    (swMod.toList, mgr)
  | .getSWModuleWithName name => ([], (getSWModuleWithName name mgr).2)
  | .allModules =>
    let (dict, mgr) := allModules filterProvider mgr
    (dict.entries.map (·.2), mgr)
  | .moduleNames => ([], (moduleNames filterProvider mgr).2)
  | .modulesForType type => modulesForType filterProvider type mgr
  | .modulesForFeature feature => modulesForFeature filterProvider feature mgr
  | .modulesForCategory cat => modulesForCategory filterProvider cat mgr

end ObjCSword
