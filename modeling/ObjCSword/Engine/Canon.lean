import Mathlib.Data.List.Basic

/-!
# Versifications

A versification (`sword::VersificationMgr::System`) is a sequence of books, the first of them the
Old Testament, each a sequence of chapters with their numbers of verses. What cannot be is excluded
by the types: a chapter holds a verse, and a testament holds no more books than the engine's `char`
can number.
-/

namespace ObjCSword.Sword

/-- `sword::VersificationMgr::Book`. -/
structure Book where
  longName : String
  osisName : String
  /-- The number of verses of each chapter. -/
  verseMax : List Nat
  verseMax_pos : ∀ verses ∈ verseMax, 0 < verses
deriving DecidableEq

namespace Book

def getChapterMax (book : Book) : Int := book.verseMax.length

/-- `getVerseMax`, chapters counted from one; a chapter the book does not have is answered `-1`. -/
def getVerseMax (book : Book) (chapter : Int) : Int :=
  if 1 ≤ chapter then (book.verseMax[(chapter - 1).toNat]?.map Int.ofNat).getD (-1) else -1

end Book

/-- `sword::VersificationMgr::System`. -/
structure System where
  books : List Book
  /-- How many of the books are the Old Testament. -/
  oldTestament : Nat
  oldTestament_le : oldTestament ≤ books.length
  oldTestament_char : oldTestament < 128
  newTestament_char : books.length - oldTestament < 128
deriving DecidableEq

namespace System

/-- A canon that is an Old Testament and nothing else. -/
def ofOldTestament (books : List Book) (h : books.length < 128) : System where
  books := books
  oldTestament := books.length
  oldTestament_le := Nat.le_refl _
  oldTestament_char := h
  newTestament_char := by omega

/-- The chapters of all books in their order, by their number of verses. -/
def chapters (system : System) : List Nat := system.books.flatMap Book.verseMax

/-- The testament of the book at an index, counted from one. -/
def testament (system : System) (i : Nat) : Int := if i < system.oldTestament then 1 else 2

/-- The position of the book at an index within its testament, counted from one. -/
def numberInTestament (system : System) (i : Nat) : Int :=
  if i < system.oldTestament then i + 1 else i - system.oldTestament + 1

theorem numberInTestament_pos (system : System) (i : Nat) :
    1 ≤ system.numberInTestament i := by
  unfold numberInTestament
  split <;> omega

theorem numberInTestament_char (system : System) {i : Nat} (h : i < system.books.length) :
    system.numberInTestament i < 128 := by
  have hold := system.oldTestament_char
  have hnew := system.newTestament_char
  unfold numberInTestament
  split <;> omega

end System

end ObjCSword.Sword
