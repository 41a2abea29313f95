import ObjCSword.Foundation.NSArray
import ObjCSword.SwordBibleBook
import ObjCSword.SwordModule
import ObjCSword.SwordVerseKey

/-!
# Bibles

`SwordBible` (SwordBible.mm) overrides the reading methods of `SwordModule`: a reference is parsed
into verses, and each verse is read by its key text, alone or with the verses around it. A
commentary (SwordCommentary.mm) inherits all of it.
-/

namespace ObjCSword

open Sword NSString

def SWMOD_CONFENTRY_VERSIFICATION : String := "Versification"
def SWMOD_FEATURE_HEADINGS : String := "Headings"
def SW_OPTION_HEADINGS : String := "Headings"

/-- `textEntryForKey:andText:` of `SwordBibleTextEntry`. -/
def SwordBibleTextEntry.textEntryForKey (aKey : Option String) (aText : String) :
    SwordModuleTextEntry :=
  { key := aKey, text := aText, preVerseHeading := some "" }

namespace SwordBible

variable {Key : Type} {β : Type}

/-! ## Class methods -/

/-- `firstRefName:`: the text of a new verse key that is given the abbreviation. -/
def firstRefName (V : VerseKey Key) (abbr : String) : String :=
  V.getText (V.setText V.init (some abbr))

/-- `context:`; `none` where `firstBits[0]` raises. -/
def context (V : VerseKey Key) (abbr : String) : Option String :=
  let first := firstRefName V abbr
  let firstBits := componentsSeparatedByString first ':'
  -- if abbr contains : or . then we are a verse so return a chapter
  if ':' ∈ abbr.toList ∨ '.' ∈ abbr.toList then firstBits[0]?
  else
    -- otherwise return a book
    let firstBits := componentsSeparatedByString first ' '
    if 0 < firstBits.length then firstBits[0]? else some abbr

/-- `bookIndexForSWKey:`. -/
def bookIndexForSWKey (L : VerseLimits Key) (key : Key) : Int :=
  L.getBookMax key + L.getTestamentMax key * 100

/-! ## Bible information -/

/-- `versification`. -/
def versification (B : BibleModule Key) : String :=
  match SwordModule.configFileEntryForConfigKey B.toSWModule SWMOD_CONFENTRY_VERSIFICATION with
  | some confEntry => confEntry
  | none => "KJV"

/-- The object's books, nil until they are needed, and the default verse manager. -/
structure BookTables where
  books : Option (Dictionary SwordBibleBook)
  verseManager : SwordVerseManager

/-- The loop of `buildBookList`. -/
def buildBookList (books : List SwordBibleBook) : Dictionary SwordBibleBook :=
  books.foldl (fun buf bb => buf.insert bb.name bb) ∅

/-- `books`; `none` where `booksForVersification:` does not return. -/
def books (B : BibleModule Key) (translate : String → String)
    (getVersificationSystem : String → Option System) (s : BookTables) :
    Option (Dictionary SwordBibleBook × BookTables) :=
  match s.books with
  | some books => some (books, s)
  | none =>
    (SwordVerseManager.booksForVersification B.toVerseKey translate getVersificationSystem
      s.verseManager (versification B)).map fun (books, verseManager) =>
        (buildBookList books, ⟨some (buildBookList books), verseManager⟩)

/-- `hasReference:`. -/
def hasReference (B : BibleModule Key) (P : VersePosition Key) (translate : String → String)
    (getVersificationSystem : String → Option System) (ref : String) (s : BookTables) :
    Option (Bool × BookTables) :=
  let key := B.setText B.createKey (some ref)
  let bookName := P.getBookName key
  let chapter := P.getChapterMax key
  let verse := P.getVerseMax key
  (books B translate getVersificationSystem s).map fun (books, s) =>
    match AList.lookup bookName books with
    | some bb =>
      if 0 < chapter ∧ chapter < bb.numberOfChapters then
        if 0 < verse ∧ verse < bb.numberOfVersesForChapter chapter then (true, s)
        else (false, s)
      else (false, s)
    | none => (false, s)

/-- An object that is sent the messages of a book. What a loop declares its variable as does not
change what the objects are. -/
inductive BookObject where
  | string (s : String)
  | book (bb : SwordBibleBook)

namespace BookObject

/-- The messages, with `none` where the object does not implement them, which raises. -/
def number : BookObject → Option Int
  | string _ => none
  | book bb => some bb.number

def numberOfChapters : BookObject → Option Int
  | string _ => none
  | book bb => some bb.numberOfChapters

def numberOfVersesForChapter (chapter : Int) : BookObject → Option Int
  | string _ => none
  | book bb => some (bb.numberOfVersesForChapter chapter)

end BookObject

/-- `for(id object in books)`: the objects a loop over the table comes to are its keys. -/
def enumerated (order : EnumerationOrder SwordBibleBook) (books : Dictionary SwordBibleBook) :
    List BookObject := (order.keys books).map BookObject.string

/-- The loop of `containsBookNumber:`. -/
def containsNumber (aBookNum : Int) : List BookObject → Option Bool
  | [] => some false
  | bb :: rest => do
    if (← bb.number) = aBookNum then some true else containsNumber aBookNum rest

/-- `containsBookNumber:`. -/
def containsBookNumber (B : BibleModule Key) (translate : String → String)
    (getVersificationSystem : String → Option System) (order : EnumerationOrder SwordBibleBook)
    (aBookNum : Int) (s : BookTables) : Option (Bool × BookTables) := do
  let (books, s) ← books B translate getVersificationSystem s
  let ret ← containsNumber aBookNum (enumerated order books)
  some (ret, s)

/-- The inner loop of `versesForBible`. -/
def versesOfChapters (bb : BookObject) (chapters : Int) : Option Int :=
  (List.range chapters.toNat).foldlM (fun verses j => do
    let more ← bb.numberOfVersesForChapter (j + 1)
    some (verses + more)) 0

/-- `versesForBible`. -/
def versesForBible (B : BibleModule Key) (translate : String → String)
    (getVersificationSystem : String → Option System) (order : EnumerationOrder SwordBibleBook)
    (s : BookTables) : Option (Int × BookTables) := do
  let (books, s) ← books B translate getVersificationSystem s
  let ret ← (enumerated order books).foldlM (fun ret bb => do
    let chapters ← bb.numberOfChapters
    let verses ← versesOfChapters bb chapters
    some (ret + verses)) 0
  some (ret, s)

/-- `bookForName:`. -/
def bookForName (B : BibleModule Key) (translate : String → String)
    (getVersificationSystem : String → Option System) (order : EnumerationOrder SwordBibleBook)
    (bookName : String) (s : BookTables) : Option (Option SwordBibleBook × BookTables) := do
  let (books, s) ← books B translate getVersificationSystem s
  let book := (order.allValues books).find? fun book =>
    book.localizedName = bookName ∨ book.name = bookName
  some (book, s)

/-- `bookList`. -/
def bookList (B : BibleModule Key) (translate : String → String)
    (getVersificationSystem : String → Option System) (order : EnumerationOrder SwordBibleBook)
    (s : BookTables) : Option (List SwordBibleBook × BookTables) := do
  let (b, s) ← books B translate getVersificationSystem s
  some (NSArray.sortedArrayUsing SwordBibleBook.compare (order.allValues b), s)

/-- The condition of `bookWithNamePrefix:`. -/
def hasNamePrefix (emptyIsPrefix : Bool) (aPrefix : String) (book : SwordBibleBook) : Bool :=
  hasAnyPrefix emptyIsPrefix book.localizedName aPrefix
    || hasAnyPrefix emptyIsPrefix book.name aPrefix

/-- `bookWithNamePrefix:`. -/
def bookWithNamePrefix (emptyIsPrefix : Bool) (B : BibleModule Key) (translate : String → String)
    (getVersificationSystem : String → Option System) (order : EnumerationOrder SwordBibleBook)
    (aPrefix : String) (s : BookTables) : Option (Option SwordBibleBook × BookTables) := do
  let (books, s) ← books B translate getVersificationSystem s
  some ((order.allValues books).find? (hasNamePrefix emptyIsPrefix aPrefix), s)

/-- `chaptersForBookName:`. -/
def chaptersForBookName (B : BibleModule Key) (translate : String → String)
    (getVersificationSystem : String → Option System) (order : EnumerationOrder SwordBibleBook)
    (bookName : String) (s : BookTables) : Option (Int × BookTables) := do
  let (book, s) ← bookForName B translate getVersificationSystem order bookName s
  match book with
  | some book => some (book.numberOfChapters, s)
  | none => some (-1, s)

/-- `versesForChapter:bookName:`. -/
def versesForChapter (B : BibleModule Key) (translate : String → String)
    (getVersificationSystem : String → Option System) (chapter : Int) (bookName : String)
    (s : BookTables) : Option (Int × BookTables) := do
  let (books, s) ← books B translate getVersificationSystem s
  match AList.lookup bookName books with
  | some bb => some (bb.numberOfVersesForChapter chapter, s)
  | none => some (-1, s)

/-- `numberOfVerseKeysForReference:`. -/
def numberOfVerseKeysForReference (B : BibleModule Key) (aReference : Option String) : Nat :=
  match aReference with
  | some aReference =>
    if 0 < aReference.length then
      let vk := B.init
      let listKey := Lib.Cursor.ofList (B.parseVerseList vk (some aReference) "Gen1" true)
      listKey.top.forEach (fun ret _ => ret + 1) (listKey.elems.length + 1) 0
    else 0
  | none => 0

/-- `(char)` of an `int`. -/
def char (n : Int) : Int := (n + 128) % 256 - 128

/-- `moduleIntroduction`. The key is the module's own, so the calls move the module. -/
def moduleIntroduction (B : BibleModule Key) (m : ModuleState Key) :
    Option String × ModuleState Key :=
  let key := SwordModule.getKey m
  let key := B.setIntros key true
  let key := B.setTestament key 0
  let m := SwordModule.setSwordKey B.toSWModule key m
  SwordModule.renderedText B.toSWModule m

/-- `bookIntroductionFor:`. The key is the module's own, so the four calls move the module. -/
def bookIntroductionFor (B : BibleModule Key) (aBook : SwordBibleBook) (m : ModuleState Key) :
    Option String × ModuleState Key :=
  let key := SwordModule.getKey m
  let key := B.setIntros key true
  let key := B.setTestament key (char aBook.testament)
  let key := B.setBook key (char aBook.numberInTestament)
  let m := SwordModule.setSwordKey B.toSWModule key m
  SwordModule.renderedText B.toSWModule m

/-- `chapterIntroductionIn:forChapter:`. -/
def chapterIntroductionIn (B : BibleModule Key) (aBook : SwordBibleBook) (chapter : Int)
    (m : ModuleState Key) : Option String × ModuleState Key :=
  let key := SwordModule.getKey m
  let key := B.setIntros key true
  let key := B.setTestament key (char aBook.testament)
  let key := B.setBook key (char aBook.numberInTestament)
  let key := B.setChapter key chapter
  let m := SwordModule.setSwordKey B.toSWModule key m
  SwordModule.renderedText B.toSWModule m

/-! ## Reading -/

/-- `textEntryForReference:renderType:`. The heading is read from what rendering left behind. -/
def textEntryForReference (B : BibleModule Key) (aReference : String) (aType : RenderType)
    (m : ModuleState Key) : Option SwordModuleTextEntry × ModuleState Key :=
  let (superEntry, m) :=
    SwordModule.textEntryForReference B.toSWModule (some aReference) aType m
  match superEntry with
  | none => (none, m)
  | some superEntry =>
    let ret := SwordBibleTextEntry.textEntryForKey superEntry.key superEntry.text
    if B.globalOption SW_OPTION_HEADINGS
        && SwordModule.hasFeature B.toSWModule SWMOD_FEATURE_HEADINGS then
      let preverseHeading := SwordModule.entryAttributeValuePreverse m
      if 0 < preverseHeading.length then
        (some { ret with preVerseHeading := some preverseHeading }, m)
      else (some ret, m)
    else (some ret, m)

/-- The variables of the loops of `textEntriesForReference:context:renderType:withBlock:`; `block`
is what the caller's block captures. The block does not use the Bible, nor change the entry. -/
structure Reading (Key β : Type) where
  m : ModuleState Key
  verseKey : Key
  ret : List SwordModuleTextEntry
  block : β

/-- Read the entry of the verse key, show it to the block and keep it. -/
def addEntry (B : BibleModule Key) (aType : RenderType)
    (entryResult : β → SwordModuleTextEntry → β) (r : Reading Key β) : Reading Key β :=
  let (entry, m) := textEntryForReference B (B.getText r.verseKey) aType r.m
  match entry with
  | some entry =>
    { r with m := m, block := entryResult r.block entry, ret := r.ret ++ [entry] }
  | none => { r with m := m }

/-- One turn of the context loop. -/
def contextTurn (B : BibleModule Key) (aType : RenderType)
    (entryResult : β → SwordModuleTextEntry → β) (lowVerse : Int) (r : Reading Key β) :
    Reading Key β :=
  let r := { r with verseKey := B.setVerse r.verseKey lowVerse }
  let r := addEntry B aType entryResult r
  { r with verseKey := B.increment r.verseKey }

/-- The context loop, `for(;lowVerse <= highVerse;lowVerse++)`. -/
def contextLoop (B : BibleModule Key) (aType : RenderType)
    (entryResult : β → SwordModuleTextEntry → β) : Nat → Int → Int → Reading Key β → Reading Key β
  | 0, _, _, r => r
  | fuel + 1, lowVerse, highVerse, r =>
    if lowVerse ≤ highVerse then
      contextLoop B aType entryResult fuel (lowVerse + 1) highVerse
        (contextTurn B aType entryResult lowVerse r)
    else r

/-- What is done for one verse of the list. The context is so small that twice of it is an `int`. -/
def readVerse (B : BibleModule Key) (context : Int) (aType : RenderType)
    (entryResult : β → SwordModuleTextEntry → β) (r : Reading Key β) (current : Option String) :
    Reading Key β :=
  let r := { r with verseKey := B.setText r.verseKey (some (SwordListKey.keyText current)) }
  if context ≠ 0 then
    let lowVerse := B.getVerse r.verseKey - context
    let highVerse := lowVerse + context * 2
    contextLoop B aType entryResult (context * 2 + 1).toNat lowVerse highVerse r
  else addEntry B aType entryResult r

/-- `textEntriesForReference:context:renderType:withBlock:`. -/
def textEntriesForReferenceInContext (B : BibleModule Key) (aReference : Option String)
    (context : Int) (aType : RenderType) (entryResult : β → SwordModuleTextEntry → β) (block : β)
    (m : ModuleState Key) : List SwordModuleTextEntry × β × ModuleState Key :=
  let lk := SwordListKey.initWithRef B.toVerseKey aReference false (some (versification B))
  let lk := lk.top
  let first := SwordListKey.keyText lk.current
  let verseKey := SwordVerseKey.initWithRef B.toVerseKey (some first) (some (versification B))
  let verseKey := B.setText verseKey (some first)
  let r := lk.forEach (readVerse B context aType entryResult) (lk.elems.length + 1)
    { m := m, verseKey := verseKey, ret := [], block := block }
  (r.ret, r.block, r.m)

/-- `textEntriesForReference:renderType:withBlock:`. -/
def textEntriesForReference (B : BibleModule Key) (aReference : Option String)
    (aType : RenderType) (entryResult : β → SwordModuleTextEntry → β) (block : β)
    (m : ModuleState Key) : List SwordModuleTextEntry × β × ModuleState Key :=
  textEntriesForReferenceInContext B aReference 0 aType entryResult block m

/-- `strippedTextEntriesForReference:`. -/
def strippedTextEntriesForReference (B : BibleModule Key) (reference : Option String)
    (m : ModuleState Key) : Option (List SwordModuleTextEntry) × ModuleState Key :=
  let (ret, _, m) :=
    textEntriesForReferenceInContext B reference 0 .stripped (fun _ _ => ()) () m
  (some ret, m)

/-- `renderedTextEntriesForReference:`. -/
def renderedTextEntriesForReference (B : BibleModule Key) (reference : Option String)
    (m : ModuleState Key) : Option (List SwordModuleTextEntry) × ModuleState Key :=
  let (ret, _, m) :=
    textEntriesForReferenceInContext B reference 0 .rendered (fun _ _ => ()) () m
  (some ret, m)

/-- The methods as a Bible answers them. -/
def textEntries (B : BibleModule Key) : TextEntries Key where
  strippedTextEntriesForReference := strippedTextEntriesForReference B
  renderedTextEntriesForReference := renderedTextEntriesForReference B

end SwordBible

end ObjCSword
