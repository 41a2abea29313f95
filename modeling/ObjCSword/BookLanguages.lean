import ObjCSword.SwordBible
import ObjCSword.SwordLocaleManager

/-!
# The language of the books' names

A book gets its localised name when it is made (`initWithBook:`, SwordBibleBook.mm), from the
engine's locale manager as it is then. The default verse manager makes the books of a versification
when it is first asked for them and keeps them (SwordVerseManager.mm), and each Bible keeps its own
table of them from the first time it needs one (SwordBible.mm). Meanwhile a client may set another
language (SwordLocaleManager.mm).

`LocaleMgr` says what is asked of the engine's locale manager; what it translates in a state is the
parameter `translate`. The engine's parser of references and its `getBookName` are taken not to
depend on the locale. Of a Bible's methods that ask the table those are left out that go through
its names with a loop: they raise.
-/

namespace ObjCSword

open Sword

/-- Bibles, whose keys are all verse keys of the one engine. -/
structure Bibles (ι Key : Type) where
  module : ι → BibleModule Key
  verseKey : VerseKey Key
  toVerseKey_eq : ∀ i, (module i).toVerseKey = verseKey

/-- What is kept: the engine's locale, the books of the default verse manager, and the table of each
Bible. -/
structure KeptBooks (ι σ : Type) where
  lManager : σ
  verseManager : SwordVerseManager
  books : ι → Option (Dictionary SwordBibleBook)

/-- A method of a Bible that asks its table, with the orders that Foundation takes. -/
inductive TableCall where
  | hasReference (ref : String)
  | bookForName (order : EnumerationOrder SwordBibleBook) (bookName : String)
  | bookWithNamePrefix (order : EnumerationOrder SwordBibleBook) (aPrefix : String)
  | bookList (order : EnumerationOrder SwordBibleBook)
  | chaptersForBookName (order : EnumerationOrder SwordBibleBook) (bookName : String)
  | versesForChapter (chapter : Int) (bookName : String)

inductive TableAnswer where
  | found (answer : Bool)
  | book (book : Option SwordBibleBook)
  | books (list : List SwordBibleBook)
  | number (n : Int)

/-- What a client does. -/
inductive LanguageCall (ι : Type) where
  | initLocaleWithLocaledPath (preferredLanguages : List String) (aPath : String)
  | booksForVersification (verseScheme : String)
  | ask (i : ι) (call : TableCall)

variable {ι Key σ : Type}

namespace TableCall

/-- The call is sent to a Bible. -/
def send (emptyIsPrefix : Bool) (B : BibleModule Key) (P : VersePosition Key)
    (translate : String → String) (getVersificationSystem : String → Option System)
    (s : SwordBible.BookTables) : TableCall → Option (TableAnswer × SwordBible.BookTables)
  | .hasReference ref =>
    (SwordBible.hasReference B P translate getVersificationSystem ref s).map (Prod.map .found id)
  | .bookForName order bookName =>
    (SwordBible.bookForName B translate getVersificationSystem order bookName s).map
      (Prod.map .book id)
  | .bookWithNamePrefix order aPrefix =>
    (SwordBible.bookWithNamePrefix emptyIsPrefix B translate getVersificationSystem order aPrefix
      s).map (Prod.map .book id)
  | .bookList order =>
    (SwordBible.bookList B translate getVersificationSystem order s).map (Prod.map .books id)
  | .chaptersForBookName order bookName =>
    (SwordBible.chaptersForBookName B translate getVersificationSystem order bookName s).map
      (Prod.map .number id)
  | .versesForChapter chapter bookName =>
    (SwordBible.versesForChapter B translate getVersificationSystem chapter bookName s).map
      (Prod.map .number id)

end TableCall

namespace KeptBooks

/-- Nothing was asked for yet. -/
def initial (lManager : σ) : KeptBooks ι σ := ⟨lManager, ⟨∅⟩, fun _ => none⟩

/-- What a Bible sees. -/
def tables (s : KeptBooks ι σ) (i : ι) : SwordBible.BookTables := ⟨s.books i, s.verseManager⟩

variable [DecidableEq ι] (emptyIsPrefix : Bool) (L : LocaleMgr σ) (translate : σ → String → String)
  (getVersificationSystem : String → Option System) (bibles : Bibles ι Key) (P : VersePosition Key)

/-- One call. Where a method does not return nothing is left to say. -/
def step (s : KeptBooks ι σ) : LanguageCall ι → KeptBooks ι σ
  | .initLocaleWithLocaledPath preferredLanguages aPath =>
    { s with
      lManager := SwordLocaleManager.initLocaleWithLocaledPath emptyIsPrefix L preferredLanguages
        aPath s.lManager }
  | .booksForVersification verseScheme =>
    match SwordVerseManager.booksForVersification bibles.verseKey (translate s.lManager)
        getVersificationSystem s.verseManager verseScheme with
    | some (_, verseManager) => { s with verseManager := verseManager }
    | none => s
  | .ask i call =>
    match call.send emptyIsPrefix (bibles.module i) P (translate s.lManager)
        getVersificationSystem (s.tables i) with
    | some (_, t) =>
      { s with verseManager := t.verseManager, books := Function.update s.books i t.books }
    | none => s

/-- The calls of a client, one after the other. -/
def run (s : KeptBooks ι σ) (calls : List (LanguageCall ι)) : KeptBooks ι σ :=
  calls.foldl (step emptyIsPrefix L translate getVersificationSystem bibles P) s

/-- What a Bible answers now. -/
def answer (s : KeptBooks ι σ) (i : ι) (call : TableCall) : Option TableAnswer :=
  (call.send emptyIsPrefix (bibles.module i) P (translate s.lManager) getVersificationSystem
    (s.tables i)).map Prod.fst

end KeptBooks

end ObjCSword
