import ObjCSword.Foundation.NSDictionary
import ObjCSword.Foundation.NSString
import ObjCSword.Lib.Cursor
import ObjCSword.SwordModule

/-!
# Dictionaries

`SwordDictionary` (SwordDictionary.mm) lists the keys of a lexicon. The list is read from the engine
once, kept in the object, and written to a file named after the module, which any later object of
that name reads first. Installing and removing modules is the business of another class,
`SwordInstallSourceManager` (SwordInstallSourceManager.mm), which passes it on to the engine.
-/

namespace ObjCSword

open NSString

/-- A key text of a lexicon as a string, in the module's encoding. -/
def lexiconString (isUnicode : Bool) (cStrKeyText : CString) : Option String :=
  if isUnicode then stringWithUTF8String cStrKeyText else some (stringWithLatin1 cStrKeyText)

/-- A lexicon of the engine: its keys in its order, written in its encoding. -/
structure Lexicon where
  isUnicode : Bool
  keys : List CString
  deriving DecidableEq

/-- What outlives an object: the modules installed, by name, and the property lists of strings in
the file system, by path. -/
structure Library where
  installed : Dictionary Lexicon
  files : Dictionary (List String)

/-- What the engine's module answers when it was put on a key text, with a null text as `none`: the
error pending then, and the stripped text. -/
structure LexiconText where
  error : Option CString → Bool
  stripText : Option CString → Option String

/-- The object: its module, and the keys once they were read. -/
structure SwordDictionary where
  name : String
  swModule : Lexicon
  keys : Option (List String)

namespace SwordDictionary

/-- `initWithSWModule:swordManager:`. -/
def initWithSWModule (name : String) (aModule : Lexicon) : SwordDictionary := ⟨name, aModule, none⟩

/-- The path of the module's cache file in the application support directory. -/
def cachePath (defaultAppSupportPath name : String) : String :=
  defaultAppSupportPath ++ "/cache-" ++ name

/-- `readFromCache`: the list in the file, or an empty one. -/
def readFromCache (defaultAppSupportPath : String) (files : Dictionary (List String))
    (self : SwordDictionary) : SwordDictionary :=
  match AList.lookup (cachePath defaultAppSupportPath self.name) files with
  | some data => { self with keys := some data }
  | none => { self with keys := some [] }

/-- `writeToCache`. -/
def writeToCache (defaultAppSupportPath : String) (files : Dictionary (List String))
    (self : SwordDictionary) : Dictionary (List String) :=
  files.insert (cachePath defaultAppSupportPath self.name) (self.keys.getD [])

/-- One turn of the loop over the engine's keys: a key that is a string is added, capitalised. -/
def addKey (capitalizedString : String → String) (isUnicode : Bool) (arr : List String)
    (cStrKeyText : Option CString) : List String :=
  match cStrKeyText.bind (lexiconString isUnicode) with
  | some keyText => arr ++ [capitalizedString keyText]
  | none => arr

/-- `readKeys`. -/
def readKeys (capitalizedString : String → String) (defaultAppSupportPath : String)
    (files : Dictionary (List String)) (self : SwordDictionary) :
    SwordDictionary × Dictionary (List String) :=
  let self :=
    if self.keys = none then readFromCache defaultAppSupportPath files self else self
  -- still no entries?
  if (self.keys.getD []).length = 0 then
    let swModule := Lib.Cursor.ofList self.swModule.keys
    let arr := swModule.top.forEach (addKey capitalizedString self.swModule.isUnicode)
      (swModule.elems.length + 1) []
    let self := { self with keys := some arr }
    (self, writeToCache defaultAppSupportPath files self)
  else (self, files)

/-- `allKeys`. -/
def allKeys (capitalizedString : String → String) (defaultAppSupportPath : String)
    (files : Dictionary (List String)) (self : SwordDictionary) :
    List String × SwordDictionary × Dictionary (List String) :=
  let (self, files) :=
    if self.keys = none then readKeys capitalizedString defaultAppSupportPath files self
    else (self, files)
  (self.keys.getD [], self, files)

/-- `entryCount`. -/
def entryCount (capitalizedString : String → String) (defaultAppSupportPath : String)
    (files : Dictionary (List String)) (self : SwordDictionary) :
    Nat × SwordDictionary × Dictionary (List String) :=
  let (keys, self, files) := allKeys capitalizedString defaultAppSupportPath files self
  (keys.length, self, files)

/-- `setKeyString:`, which a dictionary inherits: the key text that the engine is put on. -/
def setKeyString (aKeyString : Option String) : Option CString := aKeyString.map UTF8String

/-- `entryForKey:`, and the key text that the engine's module is left on. -/
def entryForKey (swModule : LexiconText) (aKey : Option String) :
    Option String × Option CString :=
  let position := setKeyString aKey
  if swModule.error position then (none, position) else (swModule.stripText position, position)

/-! ## Links -/

/-- The types of links that name an entry: the condition of
`attributeValueForParsedLinkData:withTextRenderType:`. -/
def namesEntry (attrType : String) : Bool :=
  attrType = "scriptRef"
    || attrType = "scripRef"
    || attrType = "Greek"
    || attrType = "Hebrew"
    || hasPrefix attrType "strongMorph" || hasPrefix attrType "robinson"

/-- `attributeValueForParsedLinkData:withTextRenderType:`, sent to an object whose own methods are
`self`. The value is looked up as it is, and the text is stripped whatever is asked for. -/
def attributeValueForParsedLinkData {Key : Type} (self : TextEntries Key)
    (data : Dictionary String) (_textType : RenderType) (m : ModuleState Key) :
    AttributeValue × ModuleState Key :=
  let attrType := AList.lookup ATTRTYPE_TYPE data
  if attrType.any namesEntry then
    let key := AList.lookup ATTRTYPE_VALUE data
    let (ret, m) := self.strippedTextEntriesForReference key m
    match ret with
    | some entries => (.entries entries, m)
    | none => (.nil, m)
  else (.nil, m)

end SwordDictionary

/-! ## Installing, removing and listing -/

/-- What is done to a library: a module is installed, in the place of any of its name; a module is
uninstalled; or the keys of a module are asked of a newly created object. -/
inductive LibraryCall where
  | installModule (name : String) (aModule : Lexicon)
  | uninstallModule (name : String)
  | allKeys (name : String)
  | entryCount (name : String)

namespace Library

/-- One call. The file system's cache is not the install manager's business. -/
def step (capitalizedString : String → String) (defaultAppSupportPath : String)
    (library : Library) : LibraryCall → Library
  | .installModule name aModule =>
    { library with installed := library.installed.insert name aModule }
  | .uninstallModule name => { library with installed := library.installed.erase name }
  | .allKeys name =>
    match AList.lookup name library.installed with
    | some aModule =>
      { library with
        files := (SwordDictionary.allKeys capitalizedString defaultAppSupportPath library.files
          (.initWithSWModule name aModule)).2.2 }
    | none => library
  | .entryCount name =>
    match AList.lookup name library.installed with
    | some aModule =>
      { library with
        files := (SwordDictionary.entryCount capitalizedString defaultAppSupportPath library.files
          (.initWithSWModule name aModule)).2.2 }
    | none => library

end Library

end ObjCSword
