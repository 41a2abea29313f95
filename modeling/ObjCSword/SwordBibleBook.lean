import ObjCSword.Engine.Canon
import ObjCSword.Engine.Module

/-!
# Bible books and the books of a versification

`SwordBibleBook` (SwordBibleBook.mm) wraps a book of a versification and works out where the book
stands; `SwordVerseManager` (SwordVerseManager.mm) makes the books of a versification once and keeps
them.
-/

namespace ObjCSword

open Sword

/-- The wrapper object. `swBook` is the engine's book. -/
structure SwordBibleBook where
  number : Int
  numberInTestament : Int
  testament : Int
  localizedName : String
  swBook : Book

namespace SwordBibleBook

variable {Key : Type}

/-- `initWithBook:`. The place is asked of a new verse key that is given the OSIS name, and the
localised name of the system's locale manager, here `translate`. -/
def initWithBook (V : VerseKey Key) (translate : String → String) (aBook : Book) :
    SwordBibleBook :=
  let vk := V.setText V.init (some aBook.osisName)
  { number := 0
    numberInTestament := V.getBook vk
    testament := V.getTestament vk
    localizedName := translate aBook.longName
    swBook := aBook }

def name (bb : SwordBibleBook) : String := bb.swBook.longName

def numberOfChapters (bb : SwordBibleBook) : Int := bb.swBook.getChapterMax

def numberOfVersesForChapter (bb : SwordBibleBook) (chapter : Int) : Int :=
  bb.swBook.getVerseMax chapter

/-- `generatedIndex`. -/
def generatedIndex (bb : SwordBibleBook) : Int := bb.number + bb.testament * 100

/-- `compare:`. -/
def compare (bb b : SwordBibleBook) : Ordering := Ord.compare bb.number b.number

end SwordBibleBook

def SW_VERSIFICATION_KJV : String := "KJV"

/-- The manager's state: the books of each versification that was asked for. -/
structure SwordVerseManager where
  booksPerVersification : Dictionary (List SwordBibleBook)

namespace SwordVerseManager

variable {Key : Type}

/-- The loop over the books of a system: each is wrapped and numbered from one. -/
def booksOfSystem (V : VerseKey Key) (translate : String → String) (system : System) :
    List SwordBibleBook :=
  system.books.mapIdx fun i book =>
    { SwordBibleBook.initWithBook V translate book with number := i + 1 }

/-- The books kept for a scheme, or made now and kept; `none` for a scheme the engine does not
know. -/
def lookUpBooks (V : VerseKey Key) (translate : String → String)
    (getVersificationSystem : String → Option System) (mgr : SwordVerseManager)
    (verseScheme : String) : Option (List SwordBibleBook × SwordVerseManager) :=
  match AList.lookup verseScheme mgr.booksPerVersification with
  | some books => some (books, mgr)
  | none =>
    (getVersificationSystem verseScheme).map fun system =>
      let buf := booksOfSystem V translate system
      (buf, { mgr with booksPerVersification := mgr.booksPerVersification.insert verseScheme buf })

/-- `booksForVersification:`. An unknown scheme falls back on the KJV; where the engine does not
know that one either the source calls itself without end, which is `none` here. -/
def booksForVersification (V : VerseKey Key) (translate : String → String)
    (getVersificationSystem : String → Option System) (mgr : SwordVerseManager)
    (verseScheme : String) : Option (List SwordBibleBook × SwordVerseManager) :=
  (lookUpBooks V translate getVersificationSystem mgr verseScheme).or
    (lookUpBooks V translate getVersificationSystem mgr SW_VERSIFICATION_KJV)

end SwordVerseManager

end ObjCSword
