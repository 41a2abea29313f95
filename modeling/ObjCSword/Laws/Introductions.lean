import ObjCSword.Laws.Books
import ObjCSword.SwordBible

/-!
# The introduction of a book

A `SwordBibleBook` stores where its book stands, as a testament and a number within it, and
`bookIntroductionFor:` sends the module's key there. The two numbers come from a verse key that
knows the KJV only; the key they are sent to counts in the module's own versification.
`bookIntroduction_iff` says which books survive this: exactly those that stand in the KJV where they
stand in the module's versification, and of those that the KJV does not have the ones whose names
happen to put a new verse key there.
-/

namespace ObjCSword

open Sword

variable {Key : Type}

/-! ## Places -/

/-- The testament of the book at an index and its number within that, both counted from one. -/
def Sword.System.place (S : System) (i : Nat) : Int × Int := (S.testament i, S.numberInTestament i)

/-- Where a system has the book of an OSIS name. -/
def Sword.System.placeNamed (S : System) (osisName : String) : Option (Int × Int) :=
  (S.books.findIdx? (·.osisName = osisName)).map S.place

namespace SwordBible

/-- The place on which a new verse key is put by a name. -/
def newKeyPlace (V : VerseKey Key) (osisName : String) : Int × Int :=
  (V.getTestament (V.setText V.init (some osisName)), V.getBook (V.setText V.init (some osisName)))

/-- What the introductions rely on in the engine. A new verse key that is given the OSIS name of a
book of the KJV is put where the KJV has the book; where it is put by any other name is the engine's
choice. On an `own` key, one of the module's versification `S`, with introductions on, a testament
and a number within it lead to the introduction of the book that stands there. -/
structure IntroductionLaws (B : BibleModule Key) (kjv S : System) (own : Key → Prop)
    (introduction : Nat → Option String) : Prop where
  named : ∀ osisName place, kjv.placeNamed osisName = some place →
    newKeyPlace B.toVerseKey osisName = place
  lands : ∀ k, own k → ∀ i < S.books.length,
    B.renderText (B.setBook (B.setTestament (B.setIntros k true) (S.testament i))
      (S.numberInTestament i)) = introduction i

theorem char_testament (S : System) (i : Nat) : char (S.testament i) = S.testament i := by
  unfold System.testament char
  split <;> rfl

theorem char_numberInTestament (S : System) {i : Nat} (h : i < S.books.length) :
    char (S.numberInTestament i) = S.numberInTestament i := by
  have hpos := S.numberInTestament_pos i
  have hchar := S.numberInTestament_char h
  unfold char
  omega

/-- A book that was stored with its place in the module's versification leads to its
introduction. -/
theorem bookIntroductionFor_of_place {B : BibleModule Key} {kjv S : System} {own : Key → Prop}
    {introduction : Nat → Option String} (laws : IntroductionLaws B kjv S own introduction)
    {i : Nat} (hi : i < S.books.length) {bb : SwordBibleBook}
    (hplace : (bb.testament, bb.numberInTestament) = S.place i) {m : ModuleState Key}
    (hown : own m.key) :
    (bookIntroductionFor B bb m).1 = introduction i := by
  obtain ⟨htestament, hnumber⟩ := Prod.mk.inj hplace
  show B.renderText (B.setBook (B.setTestament (B.setIntros m.key true) (char bb.testament))
    (char bb.numberInTestament)) = introduction i
  rw [htestament, hnumber, char_testament, char_numberInTestament S hi]
  exact laws.lands m.key hown i hi

/-- The books of a versification, as the manager lists them, are its books in their order. -/
theorem booksOfSystem_getElem? (V : VerseKey Key) (translate : String → String) (S : System)
    {i : Nat} (hi : i < S.books.length) :
    (SwordVerseManager.booksOfSystem V translate S)[i]? =
      some { SwordBibleBook.initWithBook V translate S.books[i] with number := i + 1 } := by
  rw [SwordVerseManager.booksOfSystem, List.getElem?_mapIdx, List.getElem?_eq_getElem hi,
    Option.map_some]

/-- **A book's introduction is its own exactly when the KJV has the book at the same place**, from
every position of the module, and whatever the manager was asked for before it made the books. For a
book that the KJV does not have, the place on which its name puts a new verse key decides. -/
theorem bookIntroduction_iff {B : BibleModule Key} {kjv S : System} {own : Key → Prop}
    {introduction : Nat → Option String} (laws : IntroductionLaws B kjv S own introduction)
    (translate : String → String) (getVersificationSystem : String → Option System)
    (hversification : getVersificationSystem (versification B) = some S)
    (verseSchemes : List String) {books : List SwordBibleBook} {mgr : SwordVerseManager}
    (hbooks : SwordVerseManager.booksForVersification B.toVerseKey translate getVersificationSystem
      (.afterLookups B.toVerseKey translate getVersificationSystem verseSchemes)
      (versification B) = some (books, mgr))
    {i : Nat} (hi : i < S.books.length) {bb : SwordBibleBook} (hbb : books[i]? = some bb)
    {m : ModuleState Key} (hown : own m.key) :
    ((bb.testament, bb.numberInTestament) = S.place i ∧
        (bookIntroductionFor B bb m).1 = introduction i) ↔
      (kjv.placeNamed S.books[i].osisName).getD
          (newKeyPlace B.toVerseKey S.books[i].osisName) = S.place i := by
  have hlist : books = SwordVerseManager.booksOfSystem B.toVerseKey translate S := by
    have hknown := SwordVerseManager.booksForVersification_known B.toVerseKey translate
      verseSchemes hversification
    rw [hbooks] at hknown
    exact Option.some.inj hknown
  rw [hlist, booksOfSystem_getElem? B.toVerseKey translate S hi, Option.some.injEq] at hbb
  have hstored : (bb.testament, bb.numberInTestament) =
      (kjv.placeNamed S.books[i].osisName).getD
        (newKeyPlace B.toVerseKey S.books[i].osisName) := by
    have hnew : (bb.testament, bb.numberInTestament) =
        newKeyPlace B.toVerseKey S.books[i].osisName := by
      rw [← hbb]
      rfl
    cases hplace : kjv.placeNamed S.books[i].osisName with
    | none => exact hnew
    | some place => exact hnew.trans (laws.named _ _ hplace)
  rw [← hstored]
  exact ⟨fun h => h.1, fun h => ⟨h, bookIntroductionFor_of_place laws hi h hown⟩⟩

/-! ## A canon with one more book -/

def bookNamed (longName osisName : String) : Book where
  longName := longName
  osisName := osisName
  verseMax := [1]
  verseMax_pos := by decide

/-- The KJV, cut down to two books. -/
def twoBookKJV : System :=
  .ofOldTestament [bookNamed "Nehemiah" "Neh", bookNamed "Esther" "Esth"] (by decide)

/-- A canon that has Tobit between the two. -/
def canonWithTobit : System :=
  .ofOldTestament
    [bookNamed "Nehemiah" "Neh", bookNamed "Tobit" "Tob", bookNamed "Esther" "Esth"] (by decide)

/-- The introduction of a book says which book it is of. -/
def introductionIn (S : System) (i : Nat) : Option String := (S.books[i]?).map Book.longName

/-- A Bible of a versification `S`, whose keys are places: a text puts a key where the `kjv` has the
book. -/
def placeBible (kjv S : System) : BibleModule (Int × Int) where
  setText k text := (text.bind kjv.placeNamed).getD k
  getText _ := ""
  init := (1, 1)
  setVersificationSystem k _ := k
  setIntros k _ := k
  getTestament k := k.1
  getBook k := k.2
  getVerse _ := 0
  setTestament _ testament := (testament, 0)
  setBook k book := (k.1, book)
  setChapter k _ := k
  setVerse k _ := k
  increment k := k
  parseVerseList _ _ _ _ := []
  createKey := (1, 1)
  error _ := false
  renderText k :=
    ((List.range S.books.length).find? fun i => S.place i = k).bind (introductionIn S)
  stripText _ := none
  entryAttributes _ := ∅
  getConfigEntry key := if key = SWMOD_CONFENTRY_VERSIFICATION then some "Tobit" else none
  has _ _ := false
  globalOption _ := false

/-- The versifications that are known. -/
def twoSystems (scheme : String) : Option System :=
  if scheme = "KJV" then some twoBookKJV
  else if scheme = "Tobit" then some canonWithTobit
  else none

/-- The books of the canon as the manager makes them. -/
def tobitBooks : List SwordBibleBook :=
  [⟨1, 1, 1, "Nehemiah", bookNamed "Nehemiah" "Neh"⟩, ⟨2, 1, 1, "Tobit", bookNamed "Tobit" "Tob"⟩,
    ⟨3, 2, 1, "Esther", bookNamed "Esther" "Esth"⟩]

theorem tobitBible_laws :
    IntroductionLaws (placeBible twoBookKJV canonWithTobit) twoBookKJV canonWithTobit
      (fun _ => True) (introductionIn canonWithTobit) where
  named osisName place h := by
    show ((twoBookKJV.placeNamed osisName).getD (1, 1)) = place
    rw [h, Option.getD_some]
  lands := by
    intro k _ i hi
    show ((List.range 3).find? fun j => canonWithTobit.place j = canonWithTobit.place i).bind
      (introductionIn canonWithTobit) = introductionIn canonWithTobit i
    have hall : ∀ i < 3,
        ((List.range 3).find? fun j => canonWithTobit.place j = canonWithTobit.place i).bind
          (introductionIn canonWithTobit) = introductionIn canonWithTobit i := by decide
    exact hall i hi

/-- The first book stands where it stands in the KJV. -/
theorem bookIntroduction_nehemiah :
    (bookIntroductionFor (placeBible twoBookKJV canonWithTobit)
      ⟨1, 1, 1, "Nehemiah", bookNamed "Nehemiah" "Neh"⟩ ⟨(2, 4), false, ∅⟩).1 =
        introductionIn canonWithTobit 0 :=
  ((bookIntroduction_iff tobitBible_laws (fun name => name) twoSystems (by decide) [] rfl (i := 0)
    (by decide) rfl (m := ⟨(2, 4), false, ∅⟩) trivial).mpr (by decide)).2

/-- Esther is third in this canon and second in the KJV, so its introduction is the one of Tobit. -/
theorem bookIntroduction_esther :
    IntroductionLaws (placeBible twoBookKJV canonWithTobit) twoBookKJV canonWithTobit
        (fun _ => True) (introductionIn canonWithTobit) ∧
      (SwordVerseManager.booksForVersification (placeBible twoBookKJV canonWithTobit).toVerseKey
        (fun name => name) twoSystems ⟨∅⟩
        (versification (placeBible twoBookKJV canonWithTobit))).map Prod.fst = some tobitBooks ∧
      tobitBooks[2]? = some ⟨3, 2, 1, "Esther", bookNamed "Esther" "Esth"⟩ ∧
      canonWithTobit.place 2 = (1, 3) ∧
      introductionIn canonWithTobit 2 = some "Esther" ∧
      (bookIntroductionFor (placeBible twoBookKJV canonWithTobit)
        ⟨3, 2, 1, "Esther", bookNamed "Esther" "Esth"⟩ ⟨(1, 1), false, ∅⟩).1 = some "Tobit" :=
  ⟨tobitBible_laws, rfl, rfl, by decide, by decide, by decide⟩

end SwordBible

end ObjCSword
