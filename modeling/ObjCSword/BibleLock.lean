import ObjCSword.Lib.LazyObject
import ObjCSword.SwordBible

/-!
# The lock of the class `SwordBible`

Two class methods of `SwordBible` (SwordBible.mm) use the engine's verse keys under a lock that the
class keeps in a global variable, `bibleLock`, and that the first call makes. Each of them reads the
variable three times: to see whether there is a lock, to take it and to give it back.
-/

namespace ObjCSword

open Sword

/-- What `decodeRef:intoBook:book:chapter:verse:` writes through its pointers. A pointer that is
null is not written through. -/
structure DecodedRef where
  bookName : Option String
  book : Option Int
  chapter : Option Int
  verse : Option Int
deriving DecidableEq, Repr

/-- The pointers that are not null. -/
structure RefPointers where
  bookName : Bool
  book : Bool
  chapter : Bool
  verse : Bool

namespace SwordBible

variable {Key ι : Type}

/-- The methods that take the lock of the class. -/
inductive ClassCall where
  | decodeRef (ref : String) (into : RefPointers)
  | firstRefName (abbr : String)

inductive ClassAnswer where
  | decoded (parts : DecodedRef)
  | name (result : String)
deriving DecidableEq

/-- `decodeRef:intoBook:book:chapter:verse:`, as far as it is done under the lock. -/
def decodeRef (V : VerseKey Key) (P : VersePosition Key) (getChapter : Key → Int) (ref : String)
    (into : RefPointers) : DecodedRef :=
  let key := SwordVerseKey.initWithRef V (some ref) none
  { bookName := if into.bookName then some (P.getBookName key) else none
    book := if into.book then some (V.getBook key) else none
    chapter := if into.chapter then some (getChapter key) else none
    verse := if into.verse then some (V.getVerse key) else none }

/-- What a call does under the lock. -/
def classWork (V : VerseKey Key) (P : VersePosition Key) (getChapter : Key → Int) :
    ClassCall → ClassAnswer
  | .decodeRef ref into => .decoded (decodeRef V P getChapter ref into)
  | .firstRefName abbr => .name (firstRefName V abbr)

/-- The next step of a caller of the class. -/
def classTurn (V : VerseKey Key) (P : VersePosition Key) (getChapter : Key → Int)
    (calls : ι → ClassCall) (i : ι) :
    Lib.LazyObject.LockShared ι → Lib.LazyObject.LockPhase ClassAnswer →
      Lib.LazyObject.LockShared ι × Lib.LazyObject.LockPhase ClassAnswer :=
  Lib.LazyObject.lockTurn (fun i => classWork V P getChapter (calls i)) i

end SwordBible

end ObjCSword
