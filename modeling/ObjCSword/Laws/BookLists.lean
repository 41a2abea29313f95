import ObjCSword.Laws.BookTable
import ObjCSword.Laws.Introductions
import ObjCSword.Lib.Run

/-!
# The books in order, and in none

The books table forgets the order of the canon, and a loop over it may come to the books in any.
`bookList` sorts what it comes to by the number each book was given, so it has the canon again, in
any order of enumeration and at any time (`bookList_canonical`). `bookWithNamePrefix:` takes the
first book it comes to. Which one that is does not depend on the order exactly when the books that
the prefix fits have one name (`bookWithNamePrefix_iff`).
-/

namespace ObjCSword.SwordBible

open Sword NSString

variable {Key : Type} {B : BibleModule Key} {translate : String → String}
  {getVersificationSystem : String → Option System} {S : System}

/-! ## The list of books -/

/-- The numbers that the books are given increase. -/
theorem booksOfSystem_pairwise (V : VerseKey Key) (translate : String → String) (S : System) :
    (SwordVerseManager.booksOfSystem V translate S).Pairwise fun a b => a.number < b.number := by
  rw [SwordVerseManager.booksOfSystem, List.pairwise_iff_getElem]
  intro i j hi hj hij
  rw [List.getElem_mapIdx, List.getElem_mapIdx]
  show (i : Int) + 1 < j + 1
  omega

/-- Where the books have names of their own, each of them is in the table under its name. -/
theorem lookup_tableOf_of_mem (hnames : (S.books.map Book.longName).Nodup) {bb : SwordBibleBook}
    (h : bb ∈ SwordVerseManager.booksOfSystem B.toVerseKey translate S) :
    AList.lookup bb.name (tableOf B translate S) = some bb := by
  have hdistinct : ((SwordVerseManager.booksOfSystem B.toVerseKey translate S).map
      SwordBibleBook.name).Nodup := by
    rw [← SwordVerseManager.map_swBook_booksOfSystem B.toVerseKey translate S,
      List.map_map] at hnames
    exact hnames
  rw [tableOf, buildBookList, Dictionary.lookup_foldl_insert, AList.lookup_empty, Option.or_none]
  refine Lib.Search.find?_eq_of_iff fun other => ?_
  rw [List.mem_reverse, decide_eq_true_eq, Option.some.injEq]
  constructor
  · rintro ⟨hother, hname⟩
    exact (List.inj_on_of_nodup_map hdistinct hother h hname).symm
  · rintro rfl
    exact ⟨h, rfl⟩

/-- **Nothing but the order is forgotten**: a loop over the values of the table comes to the books
of the canon, to each of them once. -/
theorem allValues_perm (hnames : (S.books.map Book.longName).Nodup)
    (order : EnumerationOrder SwordBibleBook) :
    (order.allValues (tableOf B translate S)).Perm
      (SwordVerseManager.booksOfSystem B.toVerseKey translate S) := by
  have hvalues : (order.allValues (tableOf B translate S)).Nodup := by
    refine order.nodup_allValues fun key key' bb hkey hkey' => ?_
    rw [← (mem_of_lookup_tableOf hkey).2, (mem_of_lookup_tableOf hkey').2]
  have hbooks : (SwordVerseManager.booksOfSystem B.toVerseKey translate S).Nodup :=
    (booksOfSystem_pairwise B.toVerseKey translate S).imp fun hlt heq => by
      rw [heq] at hlt
      exact Int.lt_irrefl _ hlt
  refine (List.perm_ext_iff_of_nodup hvalues hbooks).mpr fun bb => ?_
  rw [order.mem_allValues]
  constructor
  · rintro ⟨key, hkey⟩
    exact (mem_of_lookup_tableOf hkey).1
  · intro hbb
    exact ⟨bb.name, lookup_tableOf_of_mem hnames hbb⟩

/-- **The list is the canon**, whether the table is there or has to be made. -/
theorem bookList_spec (hsystem : UsesSystem B getVersificationSystem S)
    (hnames : (S.books.map Book.longName).Nodup) (order : EnumerationOrder SwordBibleBook)
    {s : BookTables} (h : TablesOf B translate getVersificationSystem S s) :
    ∃ s', bookList B translate getVersificationSystem order s =
        some (SwordVerseManager.booksOfSystem B.toVerseKey translate S, s') ∧
      TablesOf B translate getVersificationSystem S s' := by
  obtain ⟨s', hbooks, hs'⟩ := books_spec hsystem h
  refine ⟨s', ?_, hs'⟩
  have hperm : (order.allValues (tableOf B translate S)).Perm _ := allValues_perm hnames order
  have hsorted := NSArray.sortedArrayUsing_eq SwordBibleBook.number hperm
    (booksOfSystem_pairwise B.toVerseKey translate S)
  rw [bookList, hbooks]
  dsimp only [Option.bind_eq_bind, Option.bind_some]
  exact congrArg (fun list => some (list, s')) hsorted

/-! ## Any run of calls -/

/-- A call of the run: the verse manager is asked for a versification, by whoever, or the Bible for
its list, with dictionaries enumerated in some order then. -/
inductive ListCall where
  | booksForVersification (verseScheme : String)
  | bookList (order : EnumerationOrder SwordBibleBook)

section Runs

variable (B : BibleModule Key) (translate : String → String)
  (getVersificationSystem : String → Option System)

/-- The state after a call. -/
def listStep (s : BookTables) : ListCall → BookTables
  | .booksForVersification verseScheme =>
    { s with verseManager :=
        s.verseManager.afterLookup B.toVerseKey translate getVersificationSystem verseScheme }
  | .bookList order =>
    ((bookList B translate getVersificationSystem order s).map Prod.snd).getD s

/-- What a call answers in a state: for a scheme the books of its system, or of the KJV where there
is none, and for the Bible's list the given one. -/
def Answers (kjv : System) (list : List SwordBibleBook) (s : BookTables) : ListCall → Prop
  | .booksForVersification verseScheme =>
    (SwordVerseManager.booksForVersification B.toVerseKey translate getVersificationSystem
      s.verseManager verseScheme).map Prod.fst =
        some (SwordVerseManager.booksOfSystem B.toVerseKey translate
          ((getVersificationSystem verseScheme).getD kjv))
  | .bookList order =>
    (bookList B translate getVersificationSystem order s).map Prod.fst = some list

end Runs

/-- The books of a canon in their order, numbered from one. -/
structure IsCanon (S : System) (list : List SwordBibleBook) : Prop where
  books : list.map SwordBibleBook.swBook = S.books
  numbers : list.map SwordBibleBook.number =
    (List.range S.books.length).map fun i : Nat => (i : Int) + 1

theorem isCanon_booksOfSystem (V : VerseKey Key) (translate : String → String) (S : System) :
    IsCanon S (SwordVerseManager.booksOfSystem V translate S) where
  books := SwordVerseManager.map_swBook_booksOfSystem V translate S
  numbers := by
    apply List.ext_getElem?
    intro i
    rw [SwordVerseManager.booksOfSystem, List.getElem?_map, List.getElem?_mapIdx, Option.map_map,
      List.getElem?_map]
    by_cases hi : i < S.books.length
    · rw [List.getElem?_eq_getElem hi, List.getElem?_range hi]
      rfl
    · rw [List.getElem?_eq_none (by omega), List.getElem?_eq_none (by simp; omega)]
      rfl

theorem listStep_keeps (hsystem : UsesSystem B getVersificationSystem S)
    (hnames : (S.books.map Book.longName).Nodup) {s : BookTables}
    (h : TablesOf B translate getVersificationSystem S s) (call : ListCall) :
    TablesOf B translate getVersificationSystem S
      (listStep B translate getVersificationSystem s call) := by
  cases call with
  | booksForVersification verseScheme =>
    exact ⟨SwordVerseManager.coherent_afterLookup h.coherent verseScheme, h.books⟩
  | bookList order =>
    obtain ⟨s', hlist, hs'⟩ := bookList_spec hsystem hnames order h
    rw [listStep, hlist]
    exact hs'

theorem answers_of_tables {kjv : System}
    (hkjv : getVersificationSystem SW_VERSIFICATION_KJV = some kjv)
    (hsystem : UsesSystem B getVersificationSystem S)
    (hnames : (S.books.map Book.longName).Nodup) {s : BookTables}
    (h : TablesOf B translate getVersificationSystem S s) (call : ListCall) :
    Answers B translate getVersificationSystem kjv
      (SwordVerseManager.booksOfSystem B.toVerseKey translate S) s call := by
  cases call with
  | booksForVersification verseScheme =>
    rw [Answers, SwordVerseManager.booksForVersification_fst h.coherent, hkjv]
    cases getVersificationSystem verseScheme with
    | none => rfl
    | some system => rfl
  | bookList order =>
    obtain ⟨s', hlist, -⟩ := bookList_spec hsystem hnames order h
    rw [Answers, hlist, Option.map_some]

/-- **The list of books is the canon throughout.** In any run of calls, with known and unknown
schemes, every call returns, and the Bible's list is one and the same whenever it is asked for: the
books of the Bible's system, or of the KJV where there is none, each once and numbered in the order
of the canon. -/
theorem bookList_canonical (B : BibleModule Key) (translate : String → String)
    (getVersificationSystem : String → Option System) {kjv : System}
    (hkjv : getVersificationSystem SW_VERSIFICATION_KJV = some kjv)
    (hnames : (((getVersificationSystem (versification B)).getD kjv).books.map
      Book.longName).Nodup) (calls : List ListCall) :
    ∃ list, IsCanon ((getVersificationSystem (versification B)).getD kjv) list ∧
      Lib.Run.Always (listStep B translate getVersificationSystem)
        (Answers B translate getVersificationSystem kjv list) ⟨none, ⟨∅⟩⟩ calls := by
  have hsystem : UsesSystem B getVersificationSystem
      ((getVersificationSystem (versification B)).getD kjv) := by
    rw [UsesSystem, hkjv]
    cases getVersificationSystem (versification B) with
    | none => rfl
    | some system => rfl
  refine ⟨_, isCanon_booksOfSystem B.toVerseKey translate _, ?_⟩
  exact Lib.Run.always_of_invariant
    (fun s call h _ => listStep_keeps hsystem hnames h call)
    (fun s call h _ => answers_of_tables hkjv hsystem hnames h call)
    (tablesOf_start B translate getVersificationSystem _)
    (Lib.Run.always_of_mem (P := fun _ _ => True) fun _ _ _ => trivial)

/-- An unknown scheme is asked for first, then the Bible, then another scheme, then the Bible. -/
theorem bookList_canonical_tobit :
    ∃ list, IsCanon canonWithTobit list ∧
      Lib.Run.Always (listStep (placeBible twoBookKJV canonWithTobit) id twoSystems)
        (Answers (placeBible twoBookKJV canonWithTobit) id twoSystems twoBookKJV list)
        ⟨none, ⟨∅⟩⟩
        [.booksForVersification "Luther", .bookList (.beginning "Esther"),
          .booksForVersification "KJV", .bookList (.beginning "Tobit")] :=
  bookList_canonical (placeBible twoBookKJV canonWithTobit) id twoSystems rfl (by decide) _

/-! ## The first book of a prefix -/

/-- A book that a prefix fits: its localised name begins with it, or its English name. -/
def FitsPrefix (emptyIsPrefix : Bool) (translate : String → String) (aPrefix : String)
    (book : Book) : Prop :=
  hasAnyPrefix emptyIsPrefix (translate book.longName) aPrefix = true ∨
    hasAnyPrefix emptyIsPrefix book.longName aPrefix = true

instance (emptyIsPrefix : Bool) (translate : String → String) (aPrefix : String) (book : Book) :
    Decidable (FitsPrefix emptyIsPrefix translate aPrefix book) :=
  inferInstanceAs (Decidable (_ ∨ _))

/-- What the search asks of a book in the table. -/
theorem fitsPrefix_iff {emptyIsPrefix : Bool} {aPrefix key : String} {bb : SwordBibleBook}
    (h : AList.lookup key (tableOf B translate S) = some bb) :
    hasNamePrefix emptyIsPrefix aPrefix bb = true ↔
      FitsPrefix emptyIsPrefix translate aPrefix bb.swBook := by
  obtain ⟨hname, hlocalized, -⟩ := of_lookup_tableOf h
  rw [hasNamePrefix, Bool.or_eq_true, hlocalized, ← hname]
  rfl

/-- A book that the prefix fits is the first that a search comes to, in some order. -/
theorem exists_order_find? {emptyIsPrefix : Bool} {aPrefix : String} {book : Book}
    (hbook : book ∈ S.books) (hfits : FitsPrefix emptyIsPrefix translate aPrefix book) :
    ∃ (order : EnumerationOrder SwordBibleBook) (bb : SwordBibleBook),
      (order.allValues (tableOf B translate S)).find? (hasNamePrefix emptyIsPrefix aPrefix) =
        some bb ∧ bb.name = book.longName := by
  obtain ⟨bb, hlookup⟩ := lookup_tableOf_isSome B translate hbook
  obtain ⟨hname, hlocalized, -⟩ := of_lookup_tableOf hlookup
  obtain ⟨rest, hvalues⟩ := EnumerationOrder.allValues_beginning hlookup
  refine ⟨.beginning book.longName, bb, ?_, hname⟩
  rw [hvalues, List.find?_cons_of_pos]
  rw [hasNamePrefix, Bool.or_eq_true, hlocalized, hname]
  exact hfits

/-- Where the books that the prefix fits have one name, every search comes to the same. -/
theorem find?_eq_of_oneName {emptyIsPrefix : Bool} {aPrefix : String}
    (hone : ∀ book ∈ S.books, ∀ book' ∈ S.books, FitsPrefix emptyIsPrefix translate aPrefix book →
      FitsPrefix emptyIsPrefix translate aPrefix book' → book.longName = book'.longName)
    (order order' : EnumerationOrder SwordBibleBook) :
    (order.allValues (tableOf B translate S)).find? (hasNamePrefix emptyIsPrefix aPrefix) =
      (order'.allValues (tableOf B translate S)).find? (hasNamePrefix emptyIsPrefix aPrefix) := by
  refine Lib.Search.find?_eq_of_iff fun bb => ?_
  rw [order.mem_allValues]
  constructor
  · rintro ⟨⟨key, hkey⟩, hfits⟩
    refine Lib.Search.find?_eq_of_iff fun other => ?_
    rw [order'.mem_allValues, Option.some.injEq]
    constructor
    · rintro ⟨⟨key', hkey'⟩, hfits'⟩
      -- two entries that the prefix fits stand under one name
      obtain ⟨hname, -, hmem⟩ := of_lookup_tableOf hkey
      obtain ⟨hname', -, hmem'⟩ := of_lookup_tableOf hkey'
      have hsame : key = key' := by
        rw [← hname, ← hname']
        exact hone _ hmem _ hmem' ((fitsPrefix_iff hkey).mp hfits) ((fitsPrefix_iff hkey').mp hfits')
      rw [hsame, hkey'] at hkey
      exact (Option.some.inj hkey).symm
    · rintro rfl
      exact ⟨⟨key, hkey⟩, hfits⟩
  · intro hfound
    exact ⟨order'.mem_allValues.mp (List.mem_of_find?_eq_some hfound), List.find?_some hfound⟩

/-- **The order does not matter exactly when the books that the prefix fits have one name.** -/
theorem bookWithNamePrefix_iff (emptyIsPrefix : Bool) (P : VersePosition Key)
    (translate : String → String) (hsystem : UsesSystem B getVersificationSystem S)
    (calls : List BookCall) (aPrefix : String) :
    (∀ order order' : EnumerationOrder SwordBibleBook,
      (bookWithNamePrefix emptyIsPrefix B translate getVersificationSystem order aPrefix
        (afterCalls B P translate getVersificationSystem calls)).map Prod.fst =
      (bookWithNamePrefix emptyIsPrefix B translate getVersificationSystem order' aPrefix
        (afterCalls B P translate getVersificationSystem calls)).map Prod.fst) ↔
      ∀ book ∈ S.books, ∀ book' ∈ S.books, FitsPrefix emptyIsPrefix translate aPrefix book →
        FitsPrefix emptyIsPrefix translate aPrefix book' → book.longName = book'.longName := by
  obtain ⟨s, hbooks⟩ := books_afterCalls P translate hsystem calls
  have hanswer : ∀ order : EnumerationOrder SwordBibleBook,
      (bookWithNamePrefix emptyIsPrefix B translate getVersificationSystem order aPrefix
        (afterCalls B P translate getVersificationSystem calls)).map Prod.fst =
      some ((order.allValues (tableOf B translate S)).find?
        (hasNamePrefix emptyIsPrefix aPrefix)) := by
    intro order
    rw [bookWithNamePrefix, hbooks]
    rfl
  constructor
  · intro h book hbook book' hbook' hfits hfits'
    obtain ⟨order, bb, hfound, hname⟩ := exists_order_find? (B := B) hbook hfits
    obtain ⟨order', bb', hfound', hname'⟩ := exists_order_find? (B := B) hbook' hfits'
    have hsame := h order order'
    rw [hanswer, hanswer, hfound, hfound', Option.some.injEq, Option.some.injEq] at hsame
    rw [← hname, ← hname', hsame]
  · intro hone order order'
    rw [hanswer, hanswer, find?_eq_of_oneName hone order order']

/-! ## A locale with numbered names -/

def germanName (name : String) : String :=
  if name = "Genesis" then "1. Mose"
  else if name = "Exodus" then "2. Mose"
  else if name = "I Samuel" then "1. Samuel"
  else name

def numberedCanon : System :=
  .ofOldTestament
    [bookNamed "Genesis" "Gen", bookNamed "Exodus" "Exod", bookNamed "I Samuel" "1Sam"] (by decide)

/-- One book begins with "2", whatever the order. -/
theorem bookWithNamePrefix_exodus :
    (bookWithNamePrefix false (psalm3Bible "KJV") germanName (fun _ => some numberedCanon)
      (.beginning "Genesis") "2" ⟨none, ⟨∅⟩⟩).map Prod.fst =
    (bookWithNamePrefix false (psalm3Bible "KJV") germanName (fun _ => some numberedCanon)
      (.beginning "I Samuel") "2" ⟨none, ⟨∅⟩⟩).map Prod.fst :=
  (bookWithNamePrefix_iff false (atFirstVerse ruth) germanName
    (usesSystem_only (psalm3Bible "KJV") numberedCanon) [] "2").mpr (by decide) _ _

/-- Two books begin with "1", and the order says which is found. -/
theorem bookWithNamePrefix_order :
    (bookWithNamePrefix false (psalm3Bible "KJV") germanName (fun _ => some numberedCanon)
        (.beginning "Genesis") "1" ⟨none, ⟨∅⟩⟩).map (fun out => out.1.map (·.name)) =
          some (some "Genesis") ∧
      (bookWithNamePrefix false (psalm3Bible "KJV") germanName (fun _ => some numberedCanon)
        (.beginning "I Samuel") "1" ⟨none, ⟨∅⟩⟩).map (fun out => out.1.map (·.name)) =
          some (some "I Samuel") ∧
      ¬ ∀ order order' : EnumerationOrder SwordBibleBook,
        (bookWithNamePrefix false (psalm3Bible "KJV") germanName (fun _ => some numberedCanon)
          order "1" ⟨none, ⟨∅⟩⟩).map Prod.fst =
        (bookWithNamePrefix false (psalm3Bible "KJV") germanName (fun _ => some numberedCanon)
          order' "1" ⟨none, ⟨∅⟩⟩).map Prod.fst := by
  refine ⟨by decide, by decide, fun h => ?_⟩
  have hsame := congrArg (Option.map fun book => book.map (·.name))
    (h (.beginning "Genesis") (.beginning "I Samuel"))
  revert hsame
  decide

end ObjCSword.SwordBible
