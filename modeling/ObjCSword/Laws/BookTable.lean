import ObjCSword.Lib.Search
import ObjCSword.Laws.References

/-!
# Asking the books table

A Bible keeps its books in a dictionary under their English names, and four methods ask it. The two
that go through it with a loop come to the names, not the books, and send them messages no string
implements; their sibling `bookForName:` loops over the values. So they answer only where there is
nothing to come to (`versesForBible_iff`).

The two that look a name up do it differently: one searches the values for a localised or English
name, the other subscripts by the English name. They find the same book under a name exactly when
the name is no localised name of a book that has another English name (`sameBook_iff`).
-/

namespace ObjCSword.SwordBible

open Sword

variable {Key : Type} {B : BibleModule Key} {P : VersePosition Key} {translate : String → String}
  {getVersificationSystem : String → Option System} {S : System}

/-! ## The table -/

/-- The books table of a system. -/
def tableOf (B : BibleModule Key) (translate : String → String) (S : System) :
    Dictionary SwordBibleBook :=
  buildBookList (SwordVerseManager.booksOfSystem B.toVerseKey translate S)

/-- Whatever was asked before, the table that is asked is the one of the system. -/
theorem books_afterCalls (P : VersePosition Key) (translate : String → String)
    (hsystem : UsesSystem B getVersificationSystem S) (calls : List BookCall) :
    ∃ s, books B translate getVersificationSystem
        (afterCalls B P translate getVersificationSystem calls) =
      some (tableOf B translate S, s) := by
  obtain ⟨s, hbooks, -⟩ := books_spec hsystem (tablesOf_afterCalls P translate hsystem calls)
  exact ⟨s, hbooks⟩

theorem mem_booksOfSystem {V : VerseKey Key} {bb : SwordBibleBook}
    (h : bb ∈ SwordVerseManager.booksOfSystem V translate S) :
    bb.swBook ∈ S.books ∧ bb.localizedName = translate bb.name := by
  refine ⟨?_, ?_⟩
  · rw [← SwordVerseManager.map_swBook_booksOfSystem V translate S]
    exact List.mem_map_of_mem h
  · obtain ⟨i, hi, rfl⟩ := List.mem_mapIdx.mp h
    rfl

/-- A book in the table is one that was made for the system, under its English name. -/
theorem mem_of_lookup_tableOf {key : String} {bb : SwordBibleBook}
    (h : AList.lookup key (tableOf B translate S) = some bb) :
    bb ∈ SwordVerseManager.booksOfSystem B.toVerseKey translate S ∧ bb.name = key := by
  rw [tableOf, buildBookList, Dictionary.lookup_foldl_insert, AList.lookup_empty,
    Option.or_none] at h
  exact ⟨List.mem_reverse.mp (List.mem_of_find?_eq_some h), by simpa using List.find?_some h⟩

/-- What is known of a book in the table: its names, and that it is one of the system's. -/
theorem of_lookup_tableOf {key : String} {bb : SwordBibleBook}
    (h : AList.lookup key (tableOf B translate S) = some bb) :
    bb.name = key ∧ bb.localizedName = translate key ∧ bb.swBook ∈ S.books := by
  obtain ⟨hbook, hname⟩ := mem_of_lookup_tableOf h
  obtain ⟨hmem, hlocalized⟩ := mem_booksOfSystem hbook
  exact ⟨hname, by rw [hlocalized, hname], hmem⟩

/-- Every English name is in the table. -/
theorem lookup_tableOf_isSome (B : BibleModule Key) (translate : String → String) {book : Book}
    (h : book ∈ S.books) :
    ∃ bb, AList.lookup book.longName (tableOf B translate S) = some bb := by
  have hfound := lookup_buildBookList B.toVerseKey translate S book.longName
  cases hlookup : AList.lookup book.longName (tableOf B translate S) with
  | some bb => exact ⟨bb, rfl⟩
  | none =>
    rw [tableOf] at hlookup
    rw [hlookup, Option.map_none, System.lastNamed] at hfound
    have hno := List.find?_eq_none.mp hfound.symm book (List.mem_reverse.mpr h)
    exact absurd (decide_eq_true rfl) hno

/-! ## The loops over the table -/

/-- The number of verses of all chapters of a book. -/
def versesOfBook (book : Book) : Int :=
  (List.range book.verseMax.length).foldl (fun total j => total + book.getVerseMax (j + 1)) 0

/-- The number of verses of all books of a versification. -/
def versesOfSystem (S : System) : Int :=
  S.books.foldl (fun total book => total + versesOfBook book) 0

/-- Where there is a book, the first object that a loop comes to is a name. -/
theorem enumerated_tableOf (B : BibleModule Key) (translate : String → String)
    (order : EnumerationOrder SwordBibleBook) (h : S.books ≠ []) :
    ∃ name rest, enumerated order (tableOf B translate S) = .string name :: rest := by
  obtain ⟨book, hbook⟩ := List.exists_mem_of_ne_nil _ h
  obtain ⟨bb, hlookup⟩ := lookup_tableOf_isSome B translate hbook
  have hmem : book.longName ∈ order.keys (tableOf B translate S) :=
    (order.keys_perm _).mem_iff.mpr (Dictionary.mem_keys_of_lookup hlookup)
  rw [enumerated]
  cases hkeys : order.keys (tableOf B translate S) with
  | nil =>
    rw [hkeys] at hmem
    exact absurd hmem List.not_mem_nil
  | cons name rest => exact ⟨name, rest.map BookObject.string, rfl⟩

theorem enumerated_tableOf_nil (B : BibleModule Key) (translate : String → String)
    (order : EnumerationOrder SwordBibleBook) (h : S.books = []) :
    enumerated order (tableOf B translate S) = [] := by
  have hkeys : (order.keys (tableOf B translate S)).Perm [] := by
    have hempty : (tableOf B translate S).keys = [] := by
      rw [tableOf, SwordVerseManager.booksOfSystem, h]
      rfl
    rw [← hempty]
    exact order.keys_perm _
  rw [enumerated, hkeys.eq_nil, List.map_nil]

/-- Both loops raise at the first name they come to. -/
theorem loops_raise {s s' : BookTables}
    (hbooks : books B translate getVersificationSystem s = some (tableOf B translate S, s'))
    (order : EnumerationOrder SwordBibleBook) (h : S.books ≠ []) :
    versesForBible B translate getVersificationSystem order s = none ∧
      ∀ k, containsBookNumber B translate getVersificationSystem order k s = none := by
  obtain ⟨name, rest, hfirst⟩ := enumerated_tableOf B translate order h
  constructor
  · rw [versesForBible, hbooks]
    dsimp only [Option.bind_eq_bind, Option.bind_some]
    rw [hfirst]
    rfl
  · intro k
    rw [containsBookNumber, hbooks]
    dsimp only [Option.bind_eq_bind, Option.bind_some]
    rw [hfirst]
    rfl

/-- Where they come to nothing, the answers are zero and NO. -/
theorem loops_answer {s s' : BookTables}
    (hbooks : books B translate getVersificationSystem s = some (tableOf B translate S, s'))
    (order : EnumerationOrder SwordBibleBook) (h : S.books = []) :
    versesForBible B translate getVersificationSystem order s = some (0, s') ∧
      ∀ k, containsBookNumber B translate getVersificationSystem order k s = some (false, s') := by
  have hnothing := enumerated_tableOf_nil B translate order h
  constructor
  · rw [versesForBible, hbooks]
    dsimp only [Option.bind_eq_bind, Option.bind_some]
    rw [hnothing]
    rfl
  · intro k
    rw [containsBookNumber, hbooks]
    dsimp only [Option.bind_eq_bind, Option.bind_some]
    rw [hnothing]
    rfl

/-- **The loops over the table answer only where there is no book**: the first name they come to is
sent a message that it does not implement. -/
theorem versesForBible_iff (P : VersePosition Key) (translate : String → String)
    (hsystem : UsesSystem B getVersificationSystem S) (calls : List BookCall)
    (order : EnumerationOrder SwordBibleBook) :
    ((versesForBible B translate getVersificationSystem order
        (afterCalls B P translate getVersificationSystem calls)).map Prod.fst =
          some (versesOfSystem S) ∧
      ∀ k : Int, (containsBookNumber B translate getVersificationSystem order k
        (afterCalls B P translate getVersificationSystem calls)).map Prod.fst =
          some (decide (1 ≤ k ∧ k ≤ S.books.length))) ↔
      S.books = [] := by
  obtain ⟨s, hbooks⟩ := books_afterCalls P translate hsystem calls
  constructor
  · rintro ⟨htotal, -⟩
    by_contra hne
    rw [(loops_raise hbooks order hne).1] at htotal
    cases htotal
  · intro hnil
    obtain ⟨htotal, hcontains⟩ := loops_answer hbooks order hnil
    refine ⟨?_, fun k => ?_⟩
    · rw [htotal, versesOfSystem, hnil]
      rfl
    · have hfalse : decide (1 ≤ k ∧ k ≤ (([] : List Book).length : Int)) = false := by
        rw [decide_eq_false_iff_not, List.length_nil]
        omega
      rw [hcontains, hnil, hfalse]
      rfl

/-- A canon without books. -/
def emptyCanon : System := .ofOldTestament [] (by decide)

theorem versesForBible_empty :
    (versesForBible (psalm3Bible "KJV") id (fun _ => some emptyCanon) (.beginning "Ruth")
        ⟨none, ⟨∅⟩⟩).map Prod.fst = some (versesOfSystem emptyCanon) ∧
      ∀ k : Int, (containsBookNumber (psalm3Bible "KJV") id (fun _ => some emptyCanon)
        (.beginning "Ruth") k ⟨none, ⟨∅⟩⟩).map Prod.fst =
          some (decide (1 ≤ k ∧ k ≤ emptyCanon.books.length)) :=
  (versesForBible_iff (atFirstVerse ruth) id (usesSystem_only (psalm3Bible "KJV") emptyCanon) []
    (.beginning "Ruth")).mpr rfl

/-- The four chapters of Ruth are not counted: the name is sent the message. -/
theorem versesForBible_ruth :
    versesOfSystem ruthCanon = 85 ∧
      versesForBible (psalm3Bible "KJV") id (fun _ => some ruthCanon) (.beginning "Ruth")
        ⟨none, ⟨∅⟩⟩ = none ∧
      containsBookNumber (psalm3Bible "KJV") id (fun _ => some ruthCanon) (.beginning "Ruth") 1
        ⟨none, ⟨∅⟩⟩ = none :=
  ⟨by decide, rfl, rfl⟩

/-! ## The two ways to look a name up -/

/-- What a Bible answers of a name is about one book: `bookForName:` finds what the table has under
the name, and where there is a number of chapters each of them has its verses. -/
structure SameBook (B : BibleModule Key) (translate : String → String)
    (getVersificationSystem : String → Option System) (order : EnumerationOrder SwordBibleBook)
    (bookName : String) (s : BookTables) : Prop where
  book : (bookForName B translate getVersificationSystem order bookName s).map Prod.fst =
    (books B translate getVersificationSystem s).map fun out => AList.lookup bookName out.1
  verses : ∀ n, (chaptersForBookName B translate getVersificationSystem order bookName s).map
      Prod.fst = some n → n ≠ -1 → ∀ chapter : Int, 1 ≤ chapter → chapter ≤ n →
    ∃ bb, (bookForName B translate getVersificationSystem order bookName s).map Prod.fst =
        some (some bb) ∧
      (versesForChapter B translate getVersificationSystem chapter bookName s).map Prod.fst =
        some (bb.numberOfVersesForChapter chapter) ∧
      bb.numberOfVersesForChapter chapter ≠ -1

/-- A book has each of its chapters. -/
theorem getVerseMax_ne {book : Book} {chapter : Int} (h : 1 ≤ chapter)
    (hle : chapter ≤ book.getChapterMax) : book.getVerseMax chapter ≠ -1 := by
  have hindex : (chapter - 1).toNat < book.verseMax.length := by
    unfold Book.getChapterMax at hle
    omega
  rw [Book.getVerseMax, if_pos h, List.getElem?_eq_getElem hindex, Option.map_some,
    Option.getD_some]
  exact nofun

/-- **Which book is found.** Where a localised name that is looked up is the English name as well,
the search finds what the table has under it, in whatever order it goes. -/
theorem find?_allValues_tableOf (B : BibleModule Key) {bookName : String}
    (hnames : ∀ book ∈ S.books, translate book.longName = bookName → book.longName = bookName)
    (order : EnumerationOrder SwordBibleBook) :
    (order.allValues (tableOf B translate S)).find?
        (fun book => book.localizedName = bookName ∨ book.name = bookName) =
      AList.lookup bookName (tableOf B translate S) := by
  refine Lib.Search.find?_eq_of_iff fun bb => ?_
  rw [order.mem_allValues, decide_eq_true_eq]
  constructor
  · rintro ⟨⟨key, hlookup⟩, hfound⟩
    obtain ⟨hname, hlocalized, hmem⟩ := of_lookup_tableOf hlookup
    have hkey : key = bookName := by
      rcases hfound with hfound | hfound
      · have hlong : bb.swBook.longName = key := hname
        rw [← hlong]
        exact hnames bb.swBook hmem (by rw [hlong, ← hlocalized, hfound])
      · rw [← hname, hfound]
    rw [← hkey]
    exact hlookup
  · intro hlookup
    exact ⟨⟨bookName, hlookup⟩, Or.inr (of_lookup_tableOf hlookup).1⟩

/-- The answer of `bookForName:` is what a search of the table's values finds. -/
theorem bookForName_eq {s s' : BookTables}
    (hbooks : books B translate getVersificationSystem s = some (tableOf B translate S, s'))
    (order : EnumerationOrder SwordBibleBook) (bookName : String) :
    bookForName B translate getVersificationSystem order bookName s =
      some ((order.allValues (tableOf B translate S)).find? fun book =>
        book.localizedName = bookName ∨ book.name = bookName, s') := by
  rw [bookForName, hbooks]
  rfl

/-- Where the search finds what the table has under the name, the answers are about one book. -/
theorem sameBook_of_find? {s s' : BookTables} {bookName : String}
    (hbooks : books B translate getVersificationSystem s = some (tableOf B translate S, s'))
    {order : EnumerationOrder SwordBibleBook}
    (hfind : (order.allValues (tableOf B translate S)).find?
        (fun book => book.localizedName = bookName ∨ book.name = bookName) =
      AList.lookup bookName (tableOf B translate S)) :
    SameBook B translate getVersificationSystem order bookName s := by
  have hbook := bookForName_eq hbooks order bookName
  rw [hfind] at hbook
  refine ⟨by rw [hbook, hbooks]; rfl, fun n hn hne chapter hpos hle => ?_⟩
  rw [chaptersForBookName, hbook] at hn
  rw [versesForChapter, hbook, hbooks]
  dsimp only [Option.bind_eq_bind, Option.bind_some] at hn ⊢
  cases hlookup : AList.lookup bookName (tableOf B translate S) with
  | none =>
    rw [hlookup] at hn
    exact absurd (Option.some.inj hn).symm hne
  | some bb =>
    rw [hlookup] at hn
    have hn : bb.numberOfChapters = n := Option.some.inj hn
    exact ⟨bb, rfl, rfl, getVerseMax_ne hpos (by rw [← hn] at hle; exact hle)⟩

/-- **A name is looked up alike exactly when it is no localised name of a book that has another
English name.** -/
theorem sameBook_iff (P : VersePosition Key) (translate : String → String)
    (hsystem : UsesSystem B getVersificationSystem S) (calls : List BookCall) (bookName : String) :
    (∀ order, SameBook B translate getVersificationSystem order bookName
        (afterCalls B P translate getVersificationSystem calls)) ↔
      ∀ book ∈ S.books, translate book.longName = bookName → book.longName = bookName := by
  obtain ⟨s, hbooks⟩ := books_afterCalls P translate hsystem calls
  constructor
  · intro h book hbook hlocal
    obtain ⟨bb, hlookup⟩ := lookup_tableOf_isSome B translate hbook
    obtain ⟨hname, hlocalized, -⟩ := of_lookup_tableOf hlookup
    -- the search may come to this book first
    obtain ⟨rest, hvalues⟩ := EnumerationOrder.allValues_beginning hlookup
    have hsame := (h (.beginning book.longName)).book
    rw [bookForName_eq hbooks, hbooks, Option.map_some, Option.map_some, Option.some.injEq,
      hvalues, List.find?_cons_of_pos (by simp [hlocalized, hlocal])] at hsame
    rw [← hname, (of_lookup_tableOf hsame.symm).1]
  · exact fun hnames order => sameBook_of_find? hbooks (find?_allValues_tableOf B hnames order)

/-- A locale that has one name of its own. -/
def rutLocale (name : String) : String := if name = "Ruth" then "Rut" else name

/-- The English name is looked up alike. -/
theorem sameBook_english :
    SameBook (psalm3Bible "KJV") rutLocale (fun _ => some ruthCanon) (.beginning "Ruth") "Ruth"
      ⟨none, ⟨∅⟩⟩ :=
  (sameBook_iff (atFirstVerse ruth) rutLocale
    (usesSystem_only (psalm3Bible "KJV") ruthCanon) [] "Ruth").mpr (by decide) (.beginning "Ruth")

/-- The localised name has four chapters, the first of them with no number of verses. -/
theorem chapters_without_verses :
    (chaptersForBookName (psalm3Bible "KJV") rutLocale (fun _ => some ruthCanon)
        (.beginning "Ruth") "Rut" ⟨none, ⟨∅⟩⟩).map Prod.fst = some 4 ∧
      (versesForChapter (psalm3Bible "KJV") rutLocale (fun _ => some ruthCanon) 1 "Rut"
        ⟨none, ⟨∅⟩⟩).map Prod.fst = some (-1) ∧
      ¬ SameBook (psalm3Bible "KJV") rutLocale (fun _ => some ruthCanon) (.beginning "Ruth") "Rut"
        ⟨none, ⟨∅⟩⟩ := by
  have hchapters : (chaptersForBookName (psalm3Bible "KJV") rutLocale (fun _ => some ruthCanon)
      (.beginning "Ruth") "Rut" ⟨none, ⟨∅⟩⟩).map Prod.fst = some 4 := by decide
  have hverses : (versesForChapter (psalm3Bible "KJV") rutLocale (fun _ => some ruthCanon) 1 "Rut"
      ⟨none, ⟨∅⟩⟩).map Prod.fst = some (-1) := by decide
  refine ⟨hchapters, hverses, fun h => ?_⟩
  obtain ⟨bb, -, hfound, hne⟩ := h.verses 4 hchapters (by decide) 1 (by decide) (by decide)
  rw [hverses, Option.some.injEq] at hfound
  exact hne hfound.symm

end ObjCSword.SwordBible
