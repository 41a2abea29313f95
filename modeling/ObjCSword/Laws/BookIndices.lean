import ObjCSword.Laws.Introductions

/-!
# The index of a book

`bookIndexForSWKey:` and `generatedIndex` are to compute one index, the number of a book and a
hundred for each testament. The first asks the key for the largest numbers there are, so the keys of
a testament have one index. The second takes the number of the book in the whole versification and
the testament in which the KJV has it. They agree, and tell the books apart, in versifications of
one book at most (`oneIndex_iff`).
-/

namespace ObjCSword

open Sword

variable {Key : Type}

/-- The largest number of a book in the testament of the book at an index. -/
def Sword.System.bookMax (S : System) (i : Nat) : Int :=
  if i < S.oldTestament then S.oldTestament else S.books.length - S.oldTestament

namespace SwordBible

/-- A key of the versification `S`, one of the `own` keys, that stands in the book at an index. -/
structure StandsInBook (V : VerseKey Key) (S : System) (own : Key → Prop) (key : Key) (i : Nat) :
    Prop where
  isOwn : own key
  getTestament : V.getTestament key = S.testament i
  getBook : V.getBook key = S.numberInTestament i

/-- What the indices rely on in the engine. A key in a book knows the largest number of its
testament's books, and the largest number of a testament. There is a key in each book. -/
structure IndexLaws (V : VerseKey Key) (L : VerseLimits Key) (S : System) (own : Key → Prop)
    (testamentMax : Int) : Prop where
  getBookMax : ∀ key, ∀ i < S.books.length, StandsInBook V S own key i →
    L.getBookMax key = S.bookMax i
  getTestamentMax : ∀ key, own key → L.getTestamentMax key = testamentMax
  reached : ∀ i < S.books.length, ∃ key, StandsInBook V S own key i

/-- The testament in which a new verse key, one of the KJV, finds a book by its OSIS name. -/
def newKeyTestament (V : VerseKey Key) (book : Book) : Int :=
  V.getTestament (V.setText V.init (some book.osisName))

/-- One index for each book: the keys in a book have the index of its object, and no other object
has it. -/
structure OneIndex (V : VerseKey Key) (L : VerseLimits Key) (S : System) (own : Key → Prop)
    (books : List SwordBibleBook) : Prop where
  agree : ∀ (i : Nat) (bb : SwordBibleBook) (key : Key), books[i]? = some bb →
    StandsInBook V S own key i → bookIndexForSWKey L key = bb.generatedIndex
  distinct : ∀ (i j : Nat) (bb bb' : SwordBibleBook), books[i]? = some bb → books[j]? = some bb' →
    bb.generatedIndex = bb'.generatedIndex → i = j

variable {V : VerseKey Key} {L : VerseLimits Key} {S : System} {own : Key → Prop}
  {testamentMax : Int}

/-- The index of the object that is made for a book. -/
theorem generatedIndex_eq (translate : String → String) {i : Nat} (hi : i < S.books.length)
    {bb : SwordBibleBook} (hbb : (SwordVerseManager.booksOfSystem V translate S)[i]? = some bb) :
    bb.generatedIndex = i + 1 + newKeyTestament V S.books[i] * 100 := by
  rw [booksOfSystem_getElem? V translate S hi, Option.some.injEq] at hbb
  rw [← hbb]
  rfl

/-- A key's index is the one of the object exactly where the book's number falls short of the
largest one by as much as its testament does. -/
theorem bookIndexForSWKey_eq_iff (laws : IndexLaws V L S own testamentMax)
    (translate : String → String) {i : Nat} (hi : i < S.books.length) {bb : SwordBibleBook}
    (hbb : (SwordVerseManager.booksOfSystem V translate S)[i]? = some bb) {key : Key}
    (hkey : StandsInBook V S own key i) :
    bookIndexForSWKey L key = bb.generatedIndex ↔
      S.bookMax i - (i + 1) = (newKeyTestament V S.books[i] - testamentMax) * 100 := by
  rw [generatedIndex_eq translate hi hbb, bookIndexForSWKey, laws.getBookMax key i hi hkey,
    laws.getTestamentMax key hkey.isOwn]
  omega

/-- Where there is one index for each book, what a book's number falls short of the largest one is
what its testament falls short of. -/
theorem OneIndex.bookMax_sub (laws : IndexLaws V L S own testamentMax)
    {translate : String → String}
    (h : OneIndex V L S own (SwordVerseManager.booksOfSystem V translate S)) {i : Nat}
    (hi : i < S.books.length) :
    S.bookMax i - (i + 1) = (newKeyTestament V S.books[i] - testamentMax) * 100 := by
  obtain ⟨key, hkey⟩ := laws.reached i hi
  have hbb := booksOfSystem_getElem? V translate S hi
  exact (bookIndexForSWKey_eq_iff laws translate hi hbb hkey).mp (h.agree i _ key hbb hkey)

/-- Where there is one index for each book, no two books share the largest number. -/
theorem OneIndex.eq_of_bookMax_eq (laws : IndexLaws V L S own testamentMax)
    {translate : String → String}
    (h : OneIndex V L S own (SwordVerseManager.booksOfSystem V translate S)) {i j : Nat}
    (hi : i < S.books.length) (hj : j < S.books.length) (hmax : S.bookMax i = S.bookMax j) :
    i = j := by
  obtain ⟨key, hkey⟩ := laws.reached i hi
  obtain ⟨key', hkey'⟩ := laws.reached j hj
  have hbb := booksOfSystem_getElem? V translate S hi
  have hbb' := booksOfSystem_getElem? V translate S hj
  refine h.distinct i j _ _ hbb hbb' ?_
  rw [← h.agree i _ key hbb hkey, ← h.agree j _ key' hbb' hkey', bookIndexForSWKey,
    bookIndexForSWKey, laws.getBookMax key i hi hkey, laws.getBookMax key' j hj hkey', hmax,
    laws.getTestamentMax key hkey.isOwn, laws.getTestamentMax key' hkey'.isOwn]

/-- Where there is one index for each book, there is one book at most: a second would be the first
of the New Testament, and the last. -/
theorem OneIndex.length_le_one (laws : IndexLaws V L S own testamentMax)
    {translate : String → String}
    (h : OneIndex V L S own (SwordVerseManager.booksOfSystem V translate S)) :
    S.books.length ≤ 1 := by
  by_contra hlong
  have hold := S.oldTestament_le
  have hone : S.oldTestament = 1 := by
    by_contra hne
    have hmax : S.bookMax 0 = S.bookMax 1 := by
      unfold System.bookMax
      split <;> split <;> omega
    exact absurd (h.eq_of_bookMax_eq laws (by omega) (by omega) hmax) Nat.zero_ne_one
  have htwo : S.books.length = 2 := by
    by_contra hne
    have hmax : S.bookMax 1 = S.bookMax 2 := by
      unfold System.bookMax
      split <;> split <;> omega
    exact absurd (h.eq_of_bookMax_eq laws (by omega) (by omega) hmax) (by omega)
  have hindex := h.bookMax_sub laws (i := 1) (by omega)
  have hmax : S.bookMax 1 = 1 := by
    unfold System.bookMax
    split <;> omega
  omega

theorem bookMax_of_length_le_one (hlength : S.books.length ≤ 1) {i : Nat}
    (hi : i < S.books.length) : S.bookMax i = i + 1 := by
  have hold := S.oldTestament_le
  unfold System.bookMax
  split <;> omega

/-- **One index for each book in a versification of one book at most**, which a new verse key finds
in the last testament there is; whatever the manager was asked for before it made the books. -/
theorem oneIndex_iff (laws : IndexLaws V L S own testamentMax) (translate : String → String)
    (getVersificationSystem : String → Option System) {verseScheme : String}
    (hsystem : getVersificationSystem verseScheme = some S) (verseSchemes : List String)
    {books : List SwordBibleBook} {mgr : SwordVerseManager}
    (hbooks : SwordVerseManager.booksForVersification V translate getVersificationSystem
      (.afterLookups V translate getVersificationSystem verseSchemes) verseScheme =
        some (books, mgr)) :
    OneIndex V L S own books ↔
      S.books.length ≤ 1 ∧ ∀ book ∈ S.books, newKeyTestament V book = testamentMax := by
  have hlist : books = SwordVerseManager.booksOfSystem V translate S := by
    have hknown := SwordVerseManager.booksForVersification_known V translate verseSchemes hsystem
    rw [hbooks] at hknown
    exact Option.some.inj hknown
  subst hlist
  constructor
  · intro h
    have hlength := h.length_le_one laws
    refine ⟨hlength, fun book hbook => ?_⟩
    obtain ⟨i, hi, rfl⟩ := List.mem_iff_getElem.mp hbook
    have hindex := h.bookMax_sub laws hi
    rw [bookMax_of_length_le_one hlength hi] at hindex
    omega
  · rintro ⟨hlength, hnamed⟩
    have hindex : ∀ {i : Nat} {bb : SwordBibleBook},
        (SwordVerseManager.booksOfSystem V translate S)[i]? = some bb → i < S.books.length := by
      intro i bb hbb
      obtain ⟨hi, -⟩ := List.getElem?_eq_some_iff.mp hbb
      rwa [SwordVerseManager.booksOfSystem, List.length_mapIdx] at hi
    refine ⟨fun i bb key hbb hkey => ?_, fun i j bb bb' hbb hbb' _ => ?_⟩
    · rw [bookIndexForSWKey_eq_iff laws translate (hindex hbb) hbb hkey,
        hnamed _ (List.getElem_mem (hindex hbb)), bookMax_of_length_le_one hlength (hindex hbb)]
      omega
    · have hi := hindex hbb
      have hj := hindex hbb'
      omega

/-! ## Small canons -/

/-- The limits of keys that are places in a canon. -/
def placeLimits (S : System) : VerseLimits (Int × Int) where
  getBookMax k := if k.1 = 1 then S.oldTestament else S.books.length - S.oldTestament
  getTestamentMax _ := 2

theorem placeLimits_laws (kjv S : System) :
    IndexLaws (placeBible kjv S).toVerseKey (placeLimits S) S (fun _ => True) 2 where
  getBookMax key i hi hkey := by
    have htestament : key.1 = S.testament i := hkey.getTestament
    show (if key.1 = 1 then _ else _) = _
    rw [htestament, System.testament, System.bookMax]
    by_cases hold : i < S.oldTestament
    · rw [if_pos hold, if_pos rfl, if_pos hold]
    · rw [if_neg hold, if_neg (by decide), if_neg hold]
  getTestamentMax _ _ := rfl
  reached i _ := ⟨S.place i, trivial, rfl, rfl⟩

/-- A canon of one book of the New Testament. -/
def matthewCanon : System where
  books := [bookNamed "Matthew" "Matt"]
  oldTestament := 0
  oldTestament_le := by decide
  oldTestament_char := by decide
  newTestament_char := by decide

/-- The one book has one index. -/
theorem oneIndex_matthew :
    OneIndex (placeBible matthewCanon matthewCanon).toVerseKey (placeLimits matthewCanon)
      matthewCanon (fun _ => True) [⟨1, 1, 2, "Matthew", bookNamed "Matthew" "Matt"⟩] :=
  (@oneIndex_iff _ _ _ _ _ _ (placeLimits_laws matthewCanon matthewCanon) id
    (fun _ => some matthewCanon) "KJV" rfl [] _ _ rfl).mpr (by decide)

/-- A key in the first book of the KJV has the number of its last book, and two hundred. So has a
key in the last. -/
theorem index_nehemiah :
    IndexLaws (placeBible twoBookKJV twoBookKJV).toVerseKey (placeLimits twoBookKJV) twoBookKJV
        (fun _ => True) 2 ∧
      (SwordVerseManager.booksForVersification (placeBible twoBookKJV twoBookKJV).toVerseKey id
        twoSystems ⟨∅⟩ "KJV").map Prod.fst =
          some [⟨1, 1, 1, "Nehemiah", bookNamed "Nehemiah" "Neh"⟩,
            ⟨2, 2, 1, "Esther", bookNamed "Esther" "Esth"⟩] ∧
      bookIndexForSWKey (placeLimits twoBookKJV) (1, 1) = 202 ∧
      bookIndexForSWKey (placeLimits twoBookKJV) (1, 2) = 202 ∧
      SwordBibleBook.generatedIndex ⟨1, 1, 1, "Nehemiah", bookNamed "Nehemiah" "Neh"⟩ = 101 ∧
      ¬ OneIndex (placeBible twoBookKJV twoBookKJV).toVerseKey (placeLimits twoBookKJV) twoBookKJV
        (fun _ => True) [⟨1, 1, 1, "Nehemiah", bookNamed "Nehemiah" "Neh"⟩,
          ⟨2, 2, 1, "Esther", bookNamed "Esther" "Esth"⟩] := by
  refine ⟨placeLimits_laws twoBookKJV twoBookKJV, rfl, rfl, rfl, rfl, fun h => ?_⟩
  have hindex := h.agree 0 _ (1, 1) rfl ⟨trivial, rfl, rfl⟩
  revert hindex
  decide

end SwordBible

end ObjCSword
