import ObjCSword.Engine.WritableModule
import ObjCSword.Lib.Monitor
import ObjCSword.ModuleAccess

/-!
# A Bible object that several callers use

The methods of a `SwordBible` (SwordBible.mm, and those of SwordModule.mm that it inherits) which
take the object's `moduleLock`, with the calls of the engine as their pieces of work: between two of
them any caller may come in that the lock does not keep away. What they work on are the engine
module and the entries it keeps.

Each method stands here twice. `program` is its body, cut into pieces; `perform` is the method in
one go, said with the definitions of SwordModule and SwordBible. The lock is recursive, so the
reading of a reference's verses runs under the lock that it took for all of them.

The engine's map of attributes is read last of all by `textEntryForReference:renderType:`, when the
superclass has given the lock back; this is `afterLock`.
-/

namespace ObjCSword

open Sword NSString Lib.Monitor

/-- What the calls on a Bible change: the engine module, and the entries it keeps. -/
structure BibleState (Key Pos : Type) where
  m : ModuleState Key
  entries : Pos → CString

/-- The methods that take the lock. -/
inductive BibleCall (Key : Type) where
  | textEntryForReference (aReference : String) (aType : RenderType)
  | textEntriesForReference (aReference : Option String) (context : Int) (aType : RenderType)
  | entryAttributeValuePreverseForKey (aKey : Key)
  | entryAttributeValueFootnoteOfType (fnType : String) (index : Option String) (aKey : Key)
  | moduleIntroduction
  | bookIntroductionFor (aBook : SwordBibleBook)
  | chapterIntroductionIn (aBook : SwordBibleBook) (chapter : Int)
  | writeEntry (anEntry : SwordModuleTextEntry)

inductive BibleAnswer where
  | entry (ret : Option SwordModuleTextEntry)
  | entries (ret : List SwordModuleTextEntry)
  | text (ret : Option String)
  | value (ret : String)
  | written
deriving DecidableEq

namespace SwordBible

variable {Key Pos : Type}

/-! ## The methods in one go -/

/-- `writeEntry:`. -/
def writeEntry [DecidableEq Pos] (W : WritableBible Key Pos) (anEntry : SwordModuleTextEntry)
    (s : BibleState Key Pos) : BibleState Key Pos :=
  let data := UTF8String anEntry.text
  let dLen := strlen data
  let m := SwordModule.setKeyString (W.withEntries s.entries).toSWModule anEntry.key s.m
  let (error, m) := SwordModule.error m
  if error then { s with m := m }
  else
    -- save text to module at current position
    { m := m, entries := W.setEntry m.key data dLen s.entries }

/-- A method that leaves the entries as they are. -/
def reading {α : Type} (W : WritableBible Key Pos)
    (method : BibleModule Key → ModuleState Key → α × ModuleState Key) (s : BibleState Key Pos) :
    α × BibleState Key Pos :=
  let (ret, m) := method (W.withEntries s.entries) s.m
  (ret, { s with m := m })

/-- What a call does while it has the lock, and its answer then. -/
def perform [DecidableEq Pos] (W : WritableBible Key Pos) (s : BibleState Key Pos) :
    BibleCall Key → BibleAnswer × BibleState Key Pos
  | .textEntryForReference aReference aType =>
    let (ret, s) := reading W
      (fun B => SwordModule.textEntryForReference B.toSWModule (some aReference) aType) s
    (.entry ret, s)
  | .textEntriesForReference aReference context aType =>
    let (ret, s) := reading W (fun B m =>
      let (ret, _, m) :=
        textEntriesForReferenceInContext B aReference context aType (fun _ _ => ()) () m
      (ret, m)) s
    (.entries ret, s)
  | .entryAttributeValuePreverseForKey aKey =>
    let (ret, s) := reading W
      (fun B => SwordModule.entryAttributeValuePreverseForKey B.toSWModule aKey) s
    (.value ret, s)
  | .entryAttributeValueFootnoteOfType fnType index aKey =>
    let (ret, s) := reading W
      (fun B => SwordModule.entryAttributeValueFootnoteForKey B.toSWModule fnType index aKey) s
    (.value ret, s)
  | .moduleIntroduction =>
    let (ret, s) := reading W moduleIntroduction s
    (.text ret, s)
  | .bookIntroductionFor aBook =>
    let (ret, s) := reading W (fun B => bookIntroductionFor B aBook) s
    (.text ret, s)
  | .chapterIntroductionIn aBook chapter =>
    let (ret, s) := reading W (fun B => chapterIntroductionIn B aBook chapter) s
    (.text ret, s)
  | .writeEntry anEntry => (.written, writeEntry W anEntry s)

/-! ## The methods in pieces -/

/-- One call of the engine module. -/
def onModule {α : Type} (W : WritableBible Key Pos)
    (work : BibleModule Key → ModuleState Key → α × ModuleState Key) :
    Program (BibleState Key Pos) α :=
  .act (reading W work)

/-- The key that the module stands on is changed where it is. -/
def onKey (W : WritableBible Key Pos) (change : BibleModule Key → Key → Key) :
    Program (BibleState Key Pos) Unit :=
  onModule W fun B m => ((), { m with key := change B m.key })

/-- `textEntryForReference:renderType:` of the superclass. -/
def entryProgram (W : WritableBible Key Pos) (aKeyString : Option String) (aType : RenderType) :
    Program (BibleState Key Pos) (Option SwordModuleTextEntry) := do
  onModule W fun B m => ((), SwordModule.setKeyString B.toSWModule aKeyString m)
  let error ← onModule W fun _ m => SwordModule.error m
  if error then return none
  else
    let txt ← onModule W fun B m =>
      if aType = .rendered then SwordModule.renderedText B.toSWModule m
      else SwordModule.strippedText B.toSWModule m
    return txt.map fun txt => { key := aKeyString, text := txt }

/-- The heading of an entry that the superclass's method has found. -/
def headingProgram (W : WritableBible Key Pos) :
    Option SwordModuleTextEntry →
      Program (BibleState Key Pos) (Option SwordModuleTextEntry)
  | none => return none
  | some ret => do
    let ret ← onModule W fun B m => (addPreVerseHeading B m ret, m)
    return some ret

/-- `textEntryForReference:renderType:`, sent by a method that has the lock. -/
def verseProgram (W : WritableBible Key Pos) (aReference : String) (aType : RenderType) :
    Program (BibleState Key Pos) (Option SwordModuleTextEntry) := do
  let superEntry ← entryProgram W (some aReference) aType
  headingProgram W superEntry

/-- Read the entry of the verse key and keep it. -/
def addEntryProgram (W : WritableBible Key Pos) (aType : RenderType) (verseKey : Key)
    (ret : List SwordModuleTextEntry) :
    Program (BibleState Key Pos) (List SwordModuleTextEntry) := do
  let entry ← verseProgram W (W.getText verseKey) aType
  return match entry with
    | some entry => ret ++ [entry]
    | none => ret

/-- The context loop. The verse key and the entries kept are the method's own. -/
def contextProgram (W : WritableBible Key Pos) (aType : RenderType) :
    Nat → Int → Int → Key → List SwordModuleTextEntry →
      Program (BibleState Key Pos) (Key × List SwordModuleTextEntry)
  | 0, _, _, verseKey, ret => return (verseKey, ret)
  | fuel + 1, lowVerse, highVerse, verseKey, ret =>
    if lowVerse ≤ highVerse then do
      let verseKey := W.setVerse verseKey lowVerse
      let ret ← addEntryProgram W aType verseKey ret
      contextProgram W aType fuel (lowVerse + 1) highVerse (W.increment verseKey) ret
    else return (verseKey, ret)

/-- The loop over the verses of the list. -/
def versesProgram (W : WritableBible Key Pos) (context : Int) (aType : RenderType) :
    List String → Key → List SwordModuleTextEntry →
      Program (BibleState Key Pos) (List SwordModuleTextEntry)
  | [], _, ret => return ret
  | verse :: verses, verseKey, ret =>
    let verseKey := W.setText verseKey (some verse)
    if context ≠ 0 then do
      let lowVerse := W.getVerse verseKey - context
      let highVerse := lowVerse + context * 2
      let (verseKey, ret) ←
        contextProgram W aType (context * 2 + 1).toNat lowVerse highVerse verseKey ret
      versesProgram W context aType verses verseKey ret
    else do
      let ret ← addEntryProgram W aType verseKey ret
      versesProgram W context aType verses verseKey ret

/-- `textEntriesForReference:context:renderType:withBlock:`, for a block that does nothing. -/
def entriesProgram (W : WritableBible Key Pos) (aReference : Option String) (context : Int)
    (aType : RenderType) : Program (BibleState Key Pos) (List SwordModuleTextEntry) := do
  let scheme ← onModule W fun B m => (versification B, m)
  let lk := SwordListKey.initWithRef W.toVerseKey aReference false (some scheme)
  let first := SwordListKey.keyText lk.top.current
  let verseKey := SwordVerseKey.initWithRef W.toVerseKey (some first) (some scheme)
  let verseKey := W.setText verseKey (some first)
  versesProgram W context aType lk.elems verseKey []

/-- The three introductions: the module's own key is moved, the module is put on it and read. -/
def introductionProgram (W : WritableBible Key Pos)
    (move : Program (BibleState Key Pos) Unit) : Program (BibleState Key Pos) (Option String) := do
  onKey W fun B key => B.setIntros key true
  move
  onModule W fun B m => ((), SwordModule.setSwordKey B.toSWModule (SwordModule.getKey m) m)
  onModule W fun B m => SwordModule.renderedText B.toSWModule m

/-- The module is put on the first verse of a book. -/
def moveToBook (W : WritableBible Key Pos) (aBook : SwordBibleBook) :
    Program (BibleState Key Pos) Unit := do
  onKey W fun B key => B.setTestament key (char aBook.testament)
  onKey W fun B key => B.setBook key (char aBook.numberInTestament)

/-- The methods that put the module on a key, render it and read its attributes. -/
def attributeProgram (W : WritableBible Key Pos) (aKey : Key) (value : ModuleState Key → String) :
    Program (BibleState Key Pos) String := do
  onModule W fun B m => ((), SwordModule.setSwordKey B.toSWModule aKey m)
  let _ ← onModule W fun B m => SwordModule.renderedText B.toSWModule m
  onModule W fun _ m => (value m, m)

/-- `writeEntry:`. -/
def writeProgram [DecidableEq Pos] (W : WritableBible Key Pos) (anEntry : SwordModuleTextEntry) :
    Program (BibleState Key Pos) Unit := do
  let data := UTF8String anEntry.text
  let dLen := strlen data
  onModule W fun B m => ((), SwordModule.setKeyString B.toSWModule anEntry.key m)
  let error ← onModule W fun _ m => SwordModule.error m
  if error then return ()
  else .act fun s => ((), { s with entries := W.setEntry s.m.key data dLen s.entries })

/-- The body of a call. -/
def program [DecidableEq Pos] (W : WritableBible Key Pos) :
    BibleCall Key → Program (BibleState Key Pos) BibleAnswer
  | .textEntryForReference aReference aType =>
    return .entry (← entryProgram W (some aReference) aType)
  | .textEntriesForReference aReference context aType =>
    return .entries (← entriesProgram W aReference context aType)
  | .entryAttributeValuePreverseForKey aKey =>
    return .value (← attributeProgram W aKey SwordModule.entryAttributeValuePreverse)
  | .entryAttributeValueFootnoteOfType fnType index aKey =>
    return .value
      (← attributeProgram W aKey (SwordModule.entryAttributeValueFootnoteOfType fnType index))
  | .moduleIntroduction =>
    return .text (← introductionProgram W (onKey W fun B key => B.setTestament key 0))
  | .bookIntroductionFor aBook => return .text (← introductionProgram W (moveToBook W aBook))
  | .chapterIntroductionIn aBook chapter =>
    return .text (← introductionProgram W (do
      moveToBook W aBook
      onKey W fun B key => B.setChapter key chapter))
  | .writeEntry anEntry => do
    writeProgram W anEntry
    return .written

/-- What is done with an answer when the lock was given back: `textEntryForReference:renderType:`
of a Bible reads the heading then. -/
def afterLock (W : WritableBible Key Pos) (s : BibleState Key Pos) : BibleAnswer → BibleAnswer
  | .entry ret => .entry (ret.map (addPreVerseHeading (W.withEntries s.entries) s.m))
  | .entries ret => .entries ret
  | .text ret => .text ret
  | .value ret => .value ret
  | .written => .written

/-- A call on an object, by the object's lock. -/
def callOn [DecidableEq Pos] (W : WritableBible Key Pos) (moduleLock : Nat) (call : BibleCall Key) :
    Call Nat (BibleState Key Pos) BibleAnswer where
  lock := moduleLock
  body := program W call
  after := afterLock W

end SwordBible

end ObjCSword
