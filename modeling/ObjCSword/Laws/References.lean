import ObjCSword.Laws.Books
import ObjCSword.Laws.VerseCount

/-!
# Asking whether a verse exists

`hasReference:` asks the key for the numbers of chapters and verses there are where it stands, not
for the chapter and the verse, and wants each to be less than the number the books table has. The
book of the table is the last of the key's book name, so a verse is only found where that is another
book, and a longer one: `hasReference_iff`. Where the books have names of their own no verse is
found.
-/

namespace ObjCSword

open Sword

variable {Key : Type}

/-- The last book of a name. -/
def Sword.System.lastNamed (S : System) (name : String) : Option Book :=
  S.books.reverse.find? fun book => book.longName = name

theorem Sword.System.lastNamed_of_nodup {S : System} (hnames : (S.books.map Book.longName).Nodup)
    {book : Book} (hbook : book ∈ S.books) : S.lastNamed book.longName = some book := by
  unfold System.lastNamed
  cases hfind : S.books.reverse.find? fun other => other.longName = book.longName with
  | none =>
    have hno := List.find?_eq_none.mp hfind book (List.mem_reverse.mpr hbook)
    exact absurd (decide_eq_true rfl) hno
  | some other =>
    have hmem : other ∈ S.books := List.mem_reverse.mp (List.mem_of_find?_eq_some hfind)
    have hname : other.longName = book.longName := by simpa using List.find?_some hfind
    rw [List.inj_on_of_nodup_map hnames hmem hbook hname]

namespace SwordVerseManager

/-- A scheme is answered with the books of its system, or else of the KJV's. -/
theorem booksForVersification_fst {V : VerseKey Key} {translate : String → String}
    {getVersificationSystem : String → Option System} {mgr : SwordVerseManager}
    (coherent : mgr.Coherent V translate getVersificationSystem) (verseScheme : String) :
    (booksForVersification V translate getVersificationSystem mgr verseScheme).map Prod.fst =
      ((getVersificationSystem verseScheme).or
        (getVersificationSystem SW_VERSIFICATION_KJV)).map (booksOfSystem V translate) := by
  rw [booksForVersification, Option.map_or, lookUpBooks_fst coherent, lookUpBooks_fst coherent,
    Option.map_or]

theorem map_swBook_booksOfSystem (V : VerseKey Key) (translate : String → String) (S : System) :
    (booksOfSystem V translate S).map SwordBibleBook.swBook = S.books := by
  apply List.ext_getElem?
  intro i
  rw [booksOfSystem, List.getElem?_map, List.getElem?_mapIdx, Option.map_map]
  cases S.books[i]? with
  | none => rfl
  | some book => rfl

end SwordVerseManager

namespace SwordBible

/-! ## The books table -/

/-- The book that is found in the table under a name is the last of that name. -/
theorem lookup_buildBookList (V : VerseKey Key) (translate : String → String) (S : System)
    (name : String) :
    (AList.lookup name (buildBookList (SwordVerseManager.booksOfSystem V translate S))).map
      SwordBibleBook.swBook = S.lastNamed name := by
  have hname : ((fun book : Book => decide (book.longName = name)) ∘ SwordBibleBook.swBook) =
      fun bb => decide (bb.name = name) := rfl
  rw [buildBookList, Dictionary.lookup_foldl_insert, AList.lookup_empty, Option.or_none,
    System.lastNamed, ← SwordVerseManager.map_swBook_booksOfSystem V translate S,
    ← List.map_reverse, List.find?_map, hname]

/-- The system that a Bible uses: the one of its versification, or else of the KJV. -/
def UsesSystem (B : BibleModule Key) (getVersificationSystem : String → Option System) (S : System) :
    Prop :=
  (getVersificationSystem (versification B)).or (getVersificationSystem SW_VERSIFICATION_KJV) =
    some S

/-- What happens before a Bible is asked: the verse manager is asked for a versification, by
whoever, or the Bible is asked for some other reference. -/
inductive BookCall where
  | booksForVersification (verseScheme : String)
  | hasReference (ref : String)

section Calls

variable (B : BibleModule Key) (P : VersePosition Key) (translate : String → String)
  (getVersificationSystem : String → Option System)

def afterCall (s : BookTables) : BookCall → BookTables
  | .booksForVersification verseScheme =>
    { s with verseManager :=
        s.verseManager.afterLookup B.toVerseKey translate getVersificationSystem verseScheme }
  | .hasReference ref =>
    ((hasReference B P translate getVersificationSystem ref s).map Prod.snd).getD s

/-- The state after some calls, from the start. -/
def afterCalls (calls : List BookCall) : BookTables :=
  calls.foldl (afterCall B P translate getVersificationSystem) ⟨none, ⟨∅⟩⟩

/-- The table is the one of the Bible's system, if it was made. -/
structure TablesOf (S : System) (s : BookTables) : Prop where
  coherent : s.verseManager.Coherent B.toVerseKey translate getVersificationSystem
  books : ∀ table, s.books = some table →
    table = buildBookList (SwordVerseManager.booksOfSystem B.toVerseKey translate S)

end Calls

variable {B : BibleModule Key} {P : VersePosition Key} {translate : String → String}
  {getVersificationSystem : String → Option System} {S : System}

/-- The table that is made, or kept, is the one of the system, and the state says so. -/
theorem books_spec (hsystem : UsesSystem B getVersificationSystem S) {s : BookTables}
    (h : TablesOf B translate getVersificationSystem S s) :
    ∃ s', books B translate getVersificationSystem s =
        some (buildBookList (SwordVerseManager.booksOfSystem B.toVerseKey translate S), s') ∧
      TablesOf B translate getVersificationSystem S s' := by
  unfold books
  cases htable : s.books with
  | some table =>
    obtain rfl := h.books table htable
    exact ⟨s, rfl, h⟩
  | none =>
    have hfst := SwordVerseManager.booksForVersification_fst h.coherent (versification B)
    rw [(hsystem : _ = some S), Option.map_some] at hfst
    obtain ⟨out, hout, hbooks⟩ := Option.map_eq_some_iff.mp hfst
    have hafter := SwordVerseManager.coherent_afterLookup h.coherent (versification B)
    rw [SwordVerseManager.afterLookup, hout] at hafter
    rw [hout]
    dsimp only [Option.map_some]
    rw [hbooks]
    exact ⟨_, rfl, hafter, fun table heq => (Option.some.inj heq).symm⟩

/-- **What is answered**, by the key that is given the reference and the last book of its name. -/
theorem hasReference_spec (P : VersePosition Key)
    (hsystem : UsesSystem B getVersificationSystem S) {s : BookTables}
    (h : TablesOf B translate getVersificationSystem S s) {ref : String} {key : Key}
    (hkey : B.setText B.createKey (some ref) = key) :
    ∃ answer s', hasReference B P translate getVersificationSystem ref s = some (answer, s') ∧
      TablesOf B translate getVersificationSystem S s' ∧
      (answer = true ↔ ∃ book, S.lastNamed (P.getBookName key) = some book ∧
        (0 < P.getChapterMax key ∧ P.getChapterMax key < book.getChapterMax) ∧
        0 < P.getVerseMax key ∧ P.getVerseMax key < book.getVerseMax (P.getChapterMax key)) := by
  obtain ⟨s', hbooks, hs'⟩ := books_spec hsystem h
  have hfound := lookup_buildBookList B.toVerseKey translate S (P.getBookName key)
  rw [hasReference]
  dsimp only
  rw [hbooks, Option.map_some, hkey]
  cases hlookup : AList.lookup (P.getBookName key)
      (buildBookList (SwordVerseManager.booksOfSystem B.toVerseKey translate S)) with
  | none =>
    rw [hlookup, Option.map_none] at hfound
    refine ⟨false, s', rfl, hs', ?_⟩
    rw [← hfound]
    exact iff_of_false Bool.false_ne_true nofun
  | some bb =>
    rw [hlookup, Option.map_some] at hfound
    rw [← hfound]
    simp only [Option.some.injEq, exists_eq_left']
    by_cases hchapter : 0 < P.getChapterMax key ∧ P.getChapterMax key < bb.numberOfChapters
    · by_cases hverse : 0 < P.getVerseMax key ∧
          P.getVerseMax key < bb.numberOfVersesForChapter (P.getChapterMax key)
      · rw [if_pos hchapter, if_pos hverse]
        exact ⟨true, s', rfl, hs', iff_of_true rfl ⟨hchapter, hverse⟩⟩
      · rw [if_pos hchapter, if_neg hverse]
        exact ⟨false, s', rfl, hs', iff_of_false Bool.false_ne_true fun h => hverse h.2⟩
    · rw [if_neg hchapter]
      exact ⟨false, s', rfl, hs', iff_of_false Bool.false_ne_true fun h => hchapter h.1⟩

theorem tablesOf_afterCall (hsystem : UsesSystem B getVersificationSystem S) {s : BookTables}
    (h : TablesOf B translate getVersificationSystem S s) (call : BookCall) :
    TablesOf B translate getVersificationSystem S
      (afterCall B P translate getVersificationSystem s call) := by
  cases call with
  | booksForVersification verseScheme =>
    exact ⟨SwordVerseManager.coherent_afterLookup h.coherent verseScheme, h.books⟩
  | hasReference ref =>
    obtain ⟨answer, s', hanswer, hs', -⟩ := hasReference_spec P hsystem h rfl
    rw [afterCall, hanswer]
    exact hs'

/-- At the start nothing is kept. -/
theorem tablesOf_start (B : BibleModule Key) (translate : String → String)
    (getVersificationSystem : String → Option System) (S : System) :
    TablesOf B translate getVersificationSystem S ⟨none, ⟨∅⟩⟩ :=
  ⟨SwordVerseManager.coherent_afterLookups [], nofun⟩

/-- Whatever was asked before, the table is the one of the system. -/
theorem tablesOf_afterCalls (P : VersePosition Key) (translate : String → String)
    (hsystem : UsesSystem B getVersificationSystem S) (calls : List BookCall) :
    TablesOf B translate getVersificationSystem S
      (afterCalls B P translate getVersificationSystem calls) := by
  exact List.foldlRecOn calls _ (tablesOf_start B translate getVersificationSystem S)
    fun s h call _ => tablesOf_afterCall hsystem h call

/-! ## A verse of the versification -/

/-- A verse that a system has. -/
structure Verse (S : System) where
  book : Book
  chapter : Nat
  verse : Nat
  book_mem : book ∈ S.books
  chapter_pos : 1 ≤ chapter
  chapter_le : chapter ≤ book.verseMax.length
  verse_pos : 1 ≤ verse
  verse_le : (verse : Int) ≤ book.getVerseMax chapter

/-- What the engine answers of a key that stands at a verse. -/
structure StandsAt (P : VersePosition Key) (key : Key) (place : Verse S) : Prop where
  getBookName : P.getBookName key = place.book.longName
  getChapterMax : P.getChapterMax key = place.book.getChapterMax
  getVerseMax : P.getVerseMax key = place.book.getVerseMax place.chapter

/-- **Which verses are found.** A verse of the versification is found, whatever was asked before,
exactly when the last book of its book's name has more chapters, and its chapter by the number of
the book's chapters has more verses than the verse's own chapter. -/
theorem hasReference_iff (translate : String → String)
    (hsystem : UsesSystem B getVersificationSystem S) (calls : List BookCall)
    (place : Verse S) {ref : String}
    (hplace : StandsAt P (B.setText B.createKey (some ref)) place) :
    (hasReference B P translate getVersificationSystem ref
        (afterCalls B P translate getVersificationSystem calls)).map Prod.fst = some true ↔
      ∃ other, S.lastNamed place.book.longName = some other ∧
        place.book.getChapterMax < other.getChapterMax ∧
        place.book.getVerseMax place.chapter < other.getVerseMax place.book.getChapterMax := by
  have htables := tablesOf_afterCalls P translate hsystem calls
  obtain ⟨answer, s', hanswer, -, hfound⟩ := hasReference_spec P hsystem htables rfl
  have hchapter : 0 < place.book.getChapterMax := by
    have hpos := place.chapter_pos
    have hle := place.chapter_le
    unfold Book.getChapterMax
    omega
  have hverse : 0 < place.book.getVerseMax place.chapter := by
    have hpos := place.verse_pos
    have hle := place.verse_le
    omega
  rw [hanswer, Option.map_some, Option.some.injEq, hfound, hplace.getBookName,
    hplace.getChapterMax, hplace.getVerseMax]
  simp only [hchapter, hverse, true_and]

/-- **Where the books have names of their own, no verse is found.** -/
theorem not_hasReference_of_nodup (translate : String → String)
    (hsystem : UsesSystem B getVersificationSystem S) (hnames : (S.books.map Book.longName).Nodup)
    (calls : List BookCall) (place : Verse S) {ref : String}
    (hplace : StandsAt P (B.setText B.createKey (some ref)) place) :
    (hasReference B P translate getVersificationSystem ref
      (afterCalls B P translate getVersificationSystem calls)).map Prod.fst ≠ some true := by
  have htables := tablesOf_afterCalls P translate hsystem calls
  obtain ⟨answer, s', hanswer, -, hfound⟩ := hasReference_spec P hsystem htables rfl
  rw [hanswer, Option.map_some, Ne, Option.some.injEq, hfound, hplace.getBookName,
    hplace.getChapterMax, System.lastNamed_of_nodup hnames place.book_mem]
  rintro ⟨book, hbook, ⟨-, hchapter⟩, -⟩
  obtain rfl : place.book = book := Option.some.inj hbook
  exact Int.lt_irrefl _ hchapter

/-! ## Small canons -/

/-- The first verse of a book, which has a first chapter. -/
def firstVerse (S : System) (book : Book) (hbook : book ∈ S.books)
    (hone : 0 < book.verseMax.length) (hverse : 1 ≤ book.getVerseMax 1) : Verse S where
  book := book
  chapter := 1
  verse := 1
  book_mem := hbook
  chapter_pos := Nat.le_refl _
  chapter_le := hone
  verse_pos := Nat.le_refl _
  verse_le := hverse

/-- Every key stands at the first verse of a book. -/
def atFirstVerse (book : Book) : VersePosition (String × String) :=
  ⟨fun _ => book.longName, fun _ => book.getChapterMax, fun _ => book.getVerseMax 1⟩

def shortEsther : Book := ⟨"Esther", "Esth", [4], by decide⟩

/-- A canon that has a book twice under one name, the second time longer. -/
def twoEsthers : System :=
  .ofOldTestament [shortEsther, ⟨"Esther", "EsthGr", [5, 5], by decide⟩] (by decide)

/-- A Bible uses the one system there is. -/
theorem usesSystem_only (B : BibleModule Key) (S : System) : UsesSystem B (fun _ => some S) S := rfl

/-- A verse of the shorter book is found in the longer one. -/
theorem hasReference_esther :
    (hasReference (psalm3Bible "KJV") (atFirstVerse shortEsther) id (fun _ => some twoEsthers)
      "Esther 1:1" ⟨none, ⟨∅⟩⟩).map Prod.fst = some true :=
  (hasReference_iff id (usesSystem_only (psalm3Bible "KJV") twoEsthers) []
    (firstVerse twoEsthers shortEsther List.mem_cons_self (by decide) (by decide))
    ⟨rfl, rfl, rfl⟩).mpr ⟨_, rfl, by decide, by decide⟩

def ruth : Book := ⟨"Ruth", "Ruth", [22, 23, 18, 22], by decide⟩

def ruthCanon : System := .ofOldTestament [ruth] (by decide)

/-- Ruth 1:1 is not found. -/
theorem hasReference_ruth :
    (∃ place : Verse ruthCanon, place.book = ruth ∧ place.chapter = 1 ∧ place.verse = 1 ∧
      StandsAt (atFirstVerse ruth) ((psalm3Bible "KJV").setText (psalm3Bible "KJV").createKey
        (some "Ruth 1:1")) place) ∧
      (hasReference (psalm3Bible "KJV") (atFirstVerse ruth) id (fun _ => some ruthCanon) "Ruth 1:1"
        ⟨none, ⟨∅⟩⟩).map Prod.fst = some false :=
  ⟨⟨firstVerse ruthCanon ruth List.mem_cons_self (by decide) (by decide), rfl, rfl, rfl, rfl, rfl,
    rfl⟩, rfl⟩

end SwordBible

end ObjCSword
