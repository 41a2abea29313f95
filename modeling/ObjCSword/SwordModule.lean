import ObjCSword.Engine.FilteredModule
import ObjCSword.SwordUtil

/-!
# Modules

`SwordModule` (SwordModule.mm) reads through one engine module, whose key, pending error and
attribute map every method shares. That mutable part is `ModuleState`, passed through each call; the
engine module itself is the parameter `M`. The lock the methods take is recursive and changes
nothing within one thread, and log messages are left out.

`getKey` hands out the module's own key: setting the key's text moves the module. The model has no
second copy of that key, so `setKeyText` on it is an update of the state.
-/

namespace ObjCSword

open Sword NSString

def SWMOD_CONFENTRY_ABOUT : String := "About"

/-- `RenderType`. -/
inductive RenderType where
  | rendered
  | stripped
deriving DecidableEq, Repr

/-- An entry of a module. The subclass `SwordBibleTextEntry` adds the heading, which is nil here. -/
structure SwordModuleTextEntry where
  key : Option String
  text : String
  preVerseHeading : Option String := none
deriving DecidableEq, Repr

/-- The `id` that `attributeValueForParsedLinkData:` returns. -/
inductive AttributeValue where
  | nil
  | text (value : String)
  | entries (value : List SwordModuleTextEntry)
deriving DecidableEq, Repr

/-- The part of an engine module that calls change. -/
structure ModuleState (Key : Type) where
  key : Key
  error : Bool
  entryAttributes : AttributeTypeList

/-- The methods `SwordModule` calls on `self` and a subclass may override. -/
structure TextEntries (Key : Type) where
  strippedTextEntriesForReference :
    Option String → ModuleState Key → Option (List SwordModuleTextEntry) × ModuleState Key
  renderedTextEntriesForReference :
    Option String → ModuleState Key → Option (List SwordModuleTextEntry) × ModuleState Key

namespace SwordModule

variable {Key : Type} {β : Type}

/-- `error` reads the pending error and takes it away. -/
def error (m : ModuleState Key) : Bool × ModuleState Key := (m.error, { m with error := false })

/-- `hasFeature:`. -/
def hasFeature (M : SWModule Key) (feature : String) : Bool :=
  M.has "Feature" feature
    || M.has "GlobalOptionFilter" ("GBF" ++ feature)
    || M.has "GlobalOptionFilter" ("ThML" ++ feature)
    || M.has "GlobalOptionFilter" ("UTF8" ++ feature)
    || M.has "GlobalOptionFilter" ("OSIS" ++ feature)
    || M.has "GlobalOptionFilter" feature

/-- `configFileEntryForConfigKey:`. -/
def configFileEntryForConfigKey (M : SWModule Key) (entryKey : String) : Option String :=
  M.getConfigEntry entryKey

/-! ## Module information -/

/-- What the scan of `aboutText` reads behind `\u`: the number, and how many units it takes. The
answer is `none` where an index runs past the end, which raises. -/
def readUnicodeChar (units : List unichar) : Option (Int × Nat) :=
  match units with
  | [] => none
  | c :: _ =>
    let negative := c = unicharOf '-'
    let j := if negative then 1 else 0
    let unicodeCharString := (units.drop j).takeWhile isdigit
    if unicodeCharString.length = (units.drop j).length then none
    else
      let unicodeChar := integerValue (.ofList (unicodeCharString.map fun c => .ofNat c.toNat))
      some (if negative then 65536 - unicodeChar else unicodeChar, j + unicodeCharString.length)

/-- The scan of `aboutText`. The counter is what the index has jumped ahead. -/
def readUnicodeChars : Nat → List unichar → List unichar
  | _, [] => []
  | skip + 1, _ :: rest => readUnicodeChars skip rest
  | 0, c :: rest =>
    match (if c = unicharOf '\\' ∧ rest.head? = some (unicharOf 'u') then
        readUnicodeChar rest.tail else none) with
    | some (unicodeChar, j) => .ofInt unicodeChar :: readUnicodeChars (j + 2) rest
    | none => c :: readUnicodeChars 0 rest

/-- `aboutText`: the markup of the `About` entry is replaced, then its escapes are read. -/
def aboutText (M : SWModule Key) : List unichar :=
  match configFileEntryForConfigKey M SWMOD_CONFENTRY_ABOUT with
  | none => []
  | some confEntry =>
    let aboutText := characters confEntry
    let aboutText := Lib.Replace.replace (characters "\\qc") [] 0 aboutText
    let aboutText := Lib.Replace.replace (characters "\\pard") [] 0 aboutText
    let aboutText := Lib.Replace.replace (characters "\\par") [unicharOf '\n'] 0 aboutText
    readUnicodeChars 0 aboutText

/-! ## Module positioning -/

/-- `setKeyString:` puts the module on a new key of its own. -/
def setKeyString (M : SWModule Key) (aKeyString : Option String) (m : ModuleState Key) :
    ModuleState Key :=
  let key := M.setText M.createKey aKeyString
  { m with key := key, error := M.error key }

/-- `setSwordKey:`. -/
def setSwordKey (M : SWModule Key) (aKey : Key) (m : ModuleState Key) : ModuleState Key :=
  { m with key := aKey, error := M.error aKey }

/-- `getKey`. -/
def getKey (m : ModuleState Key) : Key := m.key

/-- `setKeyText:` on the key that `getKey` handed out. -/
def setKeyText (M : SWModule Key) (aKey : Option String) (m : ModuleState Key) : ModuleState Key :=
  { m with key := M.setText m.key aKey }

/-! ## Module text access -/

/-- `renderedText`. Rendering fills the attribute map. -/
def renderedText (M : SWModule Key) (m : ModuleState Key) : Option String × ModuleState Key :=
  (M.renderText m.key, { m with entryAttributes := M.entryAttributes m.key })

/-- `strippedText`. Stripping is rendering without the markup. -/
def strippedText (M : SWModule Key) (m : ModuleState Key) : Option String × ModuleState Key :=
  (M.stripText m.key, { m with entryAttributes := M.entryAttributes m.key })

/-- `renderedTextFromString:`. Where the bytes are no UTF-8 the engine is asked again. -/
def renderedTextFromString (M : FilteredModule Key) (aString : Option String)
    (m : ModuleState Key) : Option String :=
  match stringWithUTF8String (M.renderTextOf m.key (aString.map UTF8String)) with
  | some ret => some ret
  | none => some (stringWithLatin1 (M.renderTextOf m.key (aString.map UTF8String)))

/-- `strippedTextFromString:`, which calls `renderText` as well. -/
def strippedTextFromString (M : FilteredModule Key) (aString : Option String)
    (m : ModuleState Key) : Option String :=
  match stringWithUTF8String (M.renderTextOf m.key (aString.map UTF8String)) with
  | some ret => some ret
  | none => some (stringWithLatin1 (M.renderTextOf m.key (aString.map UTF8String)))

/-- `textEntryForReference:renderType:`. -/
def textEntryForReference (M : SWModule Key) (aKeyString : Option String) (aType : RenderType)
    (m : ModuleState Key) : Option SwordModuleTextEntry × ModuleState Key :=
  let m := setKeyString M aKeyString m
  let (error, m) := error m
  if error then (none, m)
  else
    let (txt, m) := if aType = .rendered then renderedText M m else strippedText M m
    match txt with
    | some txt => (some { key := aKeyString, text := txt }, m)
    | none => (none, m)

/-- `textEntriesForReference:renderType:withBlock:`. The block is a step on what it captures. -/
def textEntriesForReference (M : SWModule Key) (aReference : Option String) (aType : RenderType)
    (entryResult : β → SwordModuleTextEntry → β) (block : β) (m : ModuleState Key) :
    Option (List SwordModuleTextEntry) × β × ModuleState Key :=
  let (entry, m) := textEntryForReference M aReference aType m
  match entry with
  | some entry => (some [entry], entryResult block entry, m)
  | none => (none, block, m)

/-- `strippedTextEntriesForReference:`. -/
def strippedTextEntriesForReference (M : SWModule Key) (reference : Option String)
    (m : ModuleState Key) : Option (List SwordModuleTextEntry) × ModuleState Key :=
  let (ret, _, m) := textEntriesForReference M reference .stripped (fun _ _ => ()) () m
  (ret, m)

/-- `renderedTextEntriesForReference:`. -/
def renderedTextEntriesForReference (M : SWModule Key) (reference : Option String)
    (m : ModuleState Key) : Option (List SwordModuleTextEntry) × ModuleState Key :=
  let (ret, _, m) := textEntriesForReference M reference .rendered (fun _ _ => ()) () m
  (ret, m)

/-- The methods as a `SwordModule` itself answers them. -/
def textEntries (M : SWModule Key) : TextEntries Key where
  strippedTextEntriesForReference := strippedTextEntriesForReference M
  renderedTextEntriesForReference := renderedTextEntriesForReference M

/-! ## Module metadata processing -/

/-- `entryAttributeValuePreverse`. -/
def entryAttributeValuePreverse (m : ModuleState Key) : String :=
  let ret := m.entryAttributes.value "Heading" "Preverse" "0"
  if hasPrefix ret "<title>" then
    stringByReplacingOccurrences (stringByReplacingOccurrences ret "<title>" "") "</title>" ""
  else ret

/-- `entryAttributeValueFootnoteOfType:indexValue:`. A missing index is a null string, which the
engine reads as the empty one. -/
def entryAttributeValueFootnoteOfType (fnType : String) (index : Option String)
    (m : ModuleState Key) : String :=
  if fnType = "x" then m.entryAttributes.value "Footnote" (index.getD "") "refList"
  else if fnType = "n" then m.entryAttributes.value "Footnote" (index.getD "") "body"
  else ""

/-- `entryAttributeValueFootnoteOfType:indexValue:forKey:`. -/
def entryAttributeValueFootnoteForKey (M : SWModule Key) (fnType : String) (index : Option String)
    (aKey : Key) (m : ModuleState Key) : String × ModuleState Key :=
  let m := setSwordKey M aKey m
  let (_, m) := renderedText M m   -- force processing of key
  (entryAttributeValueFootnoteOfType fnType index m, m)

/-- `entryAttributeValuePreverseForKey:`. -/
def entryAttributeValuePreverseForKey (M : SWModule Key) (aKey : Key) (m : ModuleState Key) :
    String × ModuleState Key :=
  let m := setSwordKey M aKey m
  let (_, m) := renderedText M m   -- force processing of key
  (entryAttributeValuePreverse m, m)

/-- One turn of the loop of `entryAttributeValuesLemma` over the words of the entry. -/
def lemmaOfWord (word : Dictionary String) : Option String :=
  match AList.lookup "Lemma" word with
  | none => none
  | some strongVal =>
    -- no text? let's skip
    if strongVal = "G3588" ∧ AList.lookup "Text" word = none then none
    else some (stringByReplacingOccurrences strongVal "|x-Strongs:" " ")

/-- `entryAttributeValuesLemma`. -/
def entryAttributeValuesLemma (M : SWModule Key) (m : ModuleState Key) :
    List String × ModuleState Key :=
  let (_, m) := strippedText M m   -- force processing of key
  match AList.lookup "Word" m.entryAttributes with
  | some words => (words.entries.filterMap fun word => lemmaOfWord word.2, m)
  | none => ([], m)

/-- `entryAttributeValuesLemmaNormalized`. -/
def entryAttributeValuesLemmaNormalized (M : SWModule Key) (m : ModuleState Key) :
    List String × ModuleState Key :=
  let (lemmas, m) := entryAttributeValuesLemma M m
  (SwordUtil.padStrongsNumbers lemmas, m)

/-- `+` is a space and `%XX` a byte: what the method does to the passage and to the value. -/
def unescapedParameter (parameter : String) : Option String :=
  stringByReplacingPercentEscapes (stringByReplacingOccurrences parameter "+" " ")

/-- `attributeValueForParsedLinkData:withTextRenderType:`, sent to an object whose own methods are
`self`. -/
def attributeValueForParsedLinkData (M : SWModule Key) (self : TextEntries Key)
    (data : Dictionary String) (textType : RenderType) (m : ModuleState Key) :
    AttributeValue × ModuleState Key :=
  let passage := (AList.lookup ATTRTYPE_PASSAGE data).bind unescapedParameter
  let attrType := AList.lookup ATTRTYPE_TYPE data
  let value := AList.lookup ATTRTYPE_VALUE data
  if attrType = some "n" then
    let m := setKeyText M passage m
    let (footnoteText, m) := entryAttributeValueFootnoteForKey M "n" value (getKey m) m
    (.text footnoteText, m)
  else if attrType = some "x" ∨ attrType = some "scriptRef" ∨ attrType = some "scripRef" then
    let (key, m) :=
      if attrType = some "x" then
        let (refList, m) := entryAttributeValueFootnoteForKey M "x" value (getKey m) m
        (some refList, m)
      else (value.bind unescapedParameter, m)
    let (ret, m) :=
      if textType = .rendered then self.renderedTextEntriesForReference key m
      else self.strippedTextEntriesForReference key m
    match ret with
    | some entries => (.entries entries, m)
    | none => (.nil, m)
  else (.nil, m)

end SwordModule

end ObjCSword
