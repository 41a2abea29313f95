import ObjCSword.BookLanguages
import ObjCSword.Laws.BookTable
import ObjCSword.Lib.FirstAsk

/-!
# In which language the books are named

Whatever a client asks for and in whatever order it sets languages in between, a Bible answers as if
it had been asked once, in the language that was set when somebody first asked for the books of its
versification. An unknown versification counts as the KJV here, and two Bibles of one versification
share the language. So after another language was set the answers are those of that language exactly
if it has the same names for the books (`names_of_first`).
-/

namespace ObjCSword

open Sword SwordBible Lib Lib.FirstAsk

variable {ι Key σ : Type} {translate : σ → String → String}
  {getVersificationSystem : String → Option System} {bibles : Bibles ι Key}
  {P : VersePosition Key} {S : System}

namespace SwordVerseManager

/-- The scheme whose books are answered for a scheme. -/
def served (getVersificationSystem : String → Option System) (verseScheme : String) : String :=
  if (getVersificationSystem verseScheme).isSome then verseScheme else SW_VERSIFICATION_KJV

theorem served_of_known {verseScheme : String}
    (h : getVersificationSystem verseScheme = some S) :
    served getVersificationSystem verseScheme = verseScheme := by
  rw [served, h, Option.isSome_some, if_pos rfl]

theorem served_of_unknown {verseScheme : String}
    (h : getVersificationSystem verseScheme = none) :
    served getVersificationSystem verseScheme = SW_VERSIFICATION_KJV := by
  rw [served, h, Option.isSome_none, if_neg Bool.false_ne_true]

variable (getVersificationSystem) in
theorem getVersificationSystem_served (verseScheme : String) :
    getVersificationSystem (served getVersificationSystem verseScheme) =
      (getVersificationSystem verseScheme).or (getVersificationSystem SW_VERSIFICATION_KJV) := by
  cases hown : getVersificationSystem verseScheme with
  | some system => rw [served_of_known hown, hown, Option.some_or]
  | none => rw [served_of_unknown hown, Option.none_or]

/-- The books that are kept were made in the languages of the stamps. -/
def Kept (V : VerseKey Key) (translate : σ → String → String)
    (getVersificationSystem : String → Option System) (stamps : Stamps σ String)
    (mgr : SwordVerseManager) : Prop :=
  ∀ scheme, AList.lookup scheme mgr.booksPerVersification =
    (getVersificationSystem scheme).bind fun system =>
      (stamps.stamp scheme).map fun lManager => booksOfSystem V (translate lManager) system

variable {V : VerseKey Key} {stamps : Stamps σ String} {mgr : SwordVerseManager}

/-- A known scheme is answered in its language, and has one from then on. -/
theorem lookUpBooks_kept (h : mgr.Kept V translate getVersificationSystem stamps)
    {verseScheme : String} (hsystem : getVersificationSystem verseScheme = some S) :
    ∃ mgr', lookUpBooks V (translate stamps.env) getVersificationSystem mgr verseScheme =
        some (booksOfSystem V (translate (stamps.seen verseScheme)) S, mgr') ∧
      mgr'.Kept V translate getVersificationSystem (FirstAsk.step stamps (.ask verseScheme)) := by
  have hkept := h verseScheme
  rw [hsystem, Option.bind_some] at hkept
  unfold lookUpBooks
  cases hstamp : stamps.stamp verseScheme with
  | some lManager =>
    rw [hkept, hstamp, Option.map_some, seen_of_stamp hstamp, step_ask_of_stamp hstamp]
    exact ⟨mgr, rfl, h⟩
  | none =>
    rw [hkept, hstamp, Option.map_none, hsystem, Option.map_some, seen_of_no_stamp hstamp]
    refine ⟨_, rfl, fun scheme => ?_⟩
    rw [Dictionary.lookup_insert]
    by_cases hscheme : scheme = verseScheme
    · rw [if_pos hscheme, hscheme, hsystem, step_stamp_ask, seen_of_no_stamp hstamp,
        Option.bind_some, Option.map_some]
    · rw [if_neg hscheme, step_stamp_of_ne stamps hscheme]
      exact h scheme

/-- An unknown scheme has no books. -/
theorem lookUpBooks_unknown (h : mgr.Kept V translate getVersificationSystem stamps)
    {verseScheme : String} (hsystem : getVersificationSystem verseScheme = none)
    (translate' : String → String) :
    lookUpBooks V translate' getVersificationSystem mgr verseScheme = none := by
  have hkept := h verseScheme
  rw [hsystem, Option.bind_none] at hkept
  unfold lookUpBooks
  rw [hkept, hsystem, Option.map_none]

/-- **One call of the manager**: the books are in the language of the scheme that is served. -/
theorem booksForVersification_kept (h : mgr.Kept V translate getVersificationSystem stamps)
    {verseScheme : String}
    (hsystem : getVersificationSystem (served getVersificationSystem verseScheme) = some S) :
    ∃ mgr', booksForVersification V (translate stamps.env) getVersificationSystem mgr
          verseScheme =
        some (booksOfSystem V
          (translate (stamps.seen (served getVersificationSystem verseScheme))) S, mgr') ∧
      mgr'.Kept V translate getVersificationSystem
        (FirstAsk.step stamps (.ask (served getVersificationSystem verseScheme))) := by
  unfold booksForVersification
  cases hown : getVersificationSystem verseScheme with
  | some system =>
    rw [served_of_known hown] at hsystem ⊢
    obtain ⟨mgr', hbooks, hkept⟩ := lookUpBooks_kept h hsystem
    exact ⟨mgr', by rw [hbooks, Option.some_or], hkept⟩
  | none =>
    rw [served_of_unknown hown] at hsystem ⊢
    obtain ⟨mgr', hbooks, hkept⟩ := lookUpBooks_kept h hsystem
    exact ⟨mgr', by rw [lookUpBooks_unknown h hown, Option.none_or, hbooks], hkept⟩

/-- Where the KJV is needed and unknown as well, the method does not return. -/
theorem booksForVersification_unknown (h : mgr.Kept V translate getVersificationSystem stamps)
    {verseScheme : String}
    (hsystem : getVersificationSystem (served getVersificationSystem verseScheme) = none)
    (translate' : String → String) :
    booksForVersification V translate' getVersificationSystem mgr verseScheme = none ∧
      mgr.Kept V translate getVersificationSystem
        (FirstAsk.step stamps (.ask (served getVersificationSystem verseScheme))) := by
  refine ⟨?_, fun scheme => ?_⟩
  · rw [getVersificationSystem_served getVersificationSystem, Option.or_eq_none_iff] at hsystem
    unfold booksForVersification
    rw [lookUpBooks_unknown h hsystem.1, lookUpBooks_unknown h hsystem.2, Option.none_or]
  · by_cases hscheme : scheme = served getVersificationSystem verseScheme
    · rw [h scheme, hscheme, hsystem, Option.bind_none, Option.bind_none]
    · rw [step_stamp_of_ne stamps hscheme]
      exact h scheme

theorem booksOfSystem_congr {translate translate' : String → String}
    (h : ∀ book ∈ S.books, translate book.longName = translate' book.longName) :
    booksOfSystem V translate S = booksOfSystem V translate' S := by
  unfold booksOfSystem
  refine List.mapIdx_eq_mapIdx_iff.mpr fun i hi => ?_
  simp only [SwordBibleBook.initWithBook, h _ (List.getElem_mem hi)]

end SwordVerseManager

namespace TableCall

/-- What is answered from a table. -/
def answerFrom (emptyIsPrefix : Bool) (B : BibleModule Key) (P : VersePosition Key)
    (table : Dictionary SwordBibleBook) (call : TableCall) : Option TableAnswer :=
  (call.send emptyIsPrefix B P id (fun _ => none) ⟨some table, ⟨∅⟩⟩).map Prod.fst

variable (P) in
/-- A call asks for the table, and answers from it. -/
theorem send_of_books (emptyIsPrefix : Bool) {B : BibleModule Key} {translate : String → String}
    {s t : BookTables} {table : Dictionary SwordBibleBook}
    (h : books B translate getVersificationSystem s = some (table, t)) (call : TableCall) :
    ∃ answer, call.send emptyIsPrefix B P translate getVersificationSystem s = some (answer, t) ∧
      call.answerFrom emptyIsPrefix B P table = some answer := by
  have hkept : books B id (fun _ => none) ⟨some table, ⟨∅⟩⟩ =
    some (table, ⟨some table, ⟨∅⟩⟩) := rfl
  cases call with
  | hasReference ref =>
    simp only [answerFrom, send, SwordBible.hasReference, h, hkept, Option.map_some]
    cases AList.lookup (P.getBookName (B.setText B.createKey (some ref))) table with
    | none => exact ⟨_, rfl, rfl⟩
    | some bb =>
      dsimp only
      split_ifs <;> exact ⟨_, rfl, rfl⟩
  | bookForName order bookName =>
    simp only [answerFrom, send, SwordBible.bookForName, h, hkept]
    exact ⟨_, rfl, rfl⟩
  | bookWithNamePrefix order aPrefix =>
    simp only [answerFrom, send, SwordBible.bookWithNamePrefix, h, hkept]
    exact ⟨_, rfl, rfl⟩
  | bookList order =>
    simp only [answerFrom, send, SwordBible.bookList, h, hkept]
    exact ⟨_, rfl, rfl⟩
  | chaptersForBookName order bookName =>
    simp only [answerFrom, send, SwordBible.chaptersForBookName, SwordBible.bookForName, h, hkept]
    dsimp only [Option.bind_eq_bind, Option.bind_some]
    cases (order.allValues table).find? fun book =>
        book.localizedName = bookName ∨ book.name = bookName with
    | none => exact ⟨_, rfl, rfl⟩
    | some book => exact ⟨_, rfl, rfl⟩
  | versesForChapter chapter bookName =>
    simp only [answerFrom, send, SwordBible.versesForChapter, h, hkept]
    dsimp only [Option.bind_eq_bind, Option.bind_some]
    cases AList.lookup bookName table with
    | none => exact ⟨_, rfl, rfl⟩
    | some bb => exact ⟨_, rfl, rfl⟩

variable (P) in
theorem send_of_no_books (emptyIsPrefix : Bool) {B : BibleModule Key}
    {translate : String → String} {s : BookTables}
    (h : books B translate getVersificationSystem s = none) (call : TableCall) :
    call.send emptyIsPrefix B P translate getVersificationSystem s = none := by
  cases call with
  | hasReference ref =>
    simp only [send, SwordBible.hasReference, h, Option.map_none]
  | chaptersForBookName order bookName =>
    simp only [send, SwordBible.chaptersForBookName, SwordBible.bookForName, h,
      Option.bind_eq_bind, Option.bind_none, Option.map_none]
  | bookForName order bookName =>
    simp only [send, SwordBible.bookForName, h, Option.bind_eq_bind, Option.bind_none,
      Option.map_none]
  | bookWithNamePrefix order aPrefix =>
    simp only [send, SwordBible.bookWithNamePrefix, h, Option.bind_eq_bind, Option.bind_none,
      Option.map_none]
  | bookList order =>
    simp only [send, SwordBible.bookList, h, Option.bind_eq_bind, Option.bind_none,
      Option.map_none]
  | versesForChapter chapter bookName =>
    simp only [send, SwordBible.versesForChapter, h, Option.bind_eq_bind, Option.bind_none,
      Option.map_none]

end TableCall

namespace KeptBooks

variable (getVersificationSystem bibles) in
/-- The scheme whose books a Bible has. -/
def schemeOf (i : ι) : String :=
  SwordVerseManager.served getVersificationSystem (versification (bibles.module i))

variable (translate getVersificationSystem bibles) in
/-- What is kept was made in the languages of the stamps. -/
structure Stamped (stamps : Stamps σ String) (s : KeptBooks ι σ) : Prop where
  lManager : s.lManager = stamps.env
  verseManager :
    s.verseManager.Kept bibles.verseKey translate getVersificationSystem stamps
  books : ∀ i table, s.books i = some table → ∃ system lManager,
    getVersificationSystem (schemeOf getVersificationSystem bibles i) = some system ∧
      stamps.stamp (schemeOf getVersificationSystem bibles i) = some lManager ∧
      table = tableOf (bibles.module i) (translate lManager) system

variable {s : KeptBooks ι σ} {stamps : Stamps σ String}

theorem Stamped.initial (lManager : σ) :
    Stamped translate getVersificationSystem bibles ⟨lManager, fun _ => none⟩
      (KeptBooks.initial lManager) where
  lManager := rfl
  verseManager scheme := by
    cases getVersificationSystem scheme with
    | none => exact AList.lookup_empty _
    | some system => exact AList.lookup_empty _
  books := nofun

/-- **One Bible that needs its table**, made now or before. -/
theorem Stamped.books_eq (h : Stamped translate getVersificationSystem bibles stamps s) {i : ι}
    (hsystem : getVersificationSystem (schemeOf getVersificationSystem bibles i) = some S) :
    ∃ t, SwordBible.books (bibles.module i) (translate s.lManager) getVersificationSystem
          (s.tables i) =
        some (tableOf (bibles.module i)
          (translate (stamps.seen (schemeOf getVersificationSystem bibles i))) S, t) ∧
      t.books = some (tableOf (bibles.module i)
        (translate (stamps.seen (schemeOf getVersificationSystem bibles i))) S) ∧
      t.verseManager.Kept bibles.verseKey translate getVersificationSystem
        (FirstAsk.step stamps (.ask (schemeOf getVersificationSystem bibles i))) := by
  unfold SwordBible.books
  cases htable : (s.tables i).books with
  | some table =>
    obtain ⟨system, lManager, hknown, hstamp, rfl⟩ := h.books i table htable
    obtain rfl : system = S := Option.some.inj (hknown.symm.trans hsystem)
    rw [seen_of_stamp hstamp, step_ask_of_stamp hstamp]
    exact ⟨s.tables i, rfl, htable, h.verseManager⟩
  | none =>
    obtain ⟨mgr', hbooks, hkept⟩ :=
      SwordVerseManager.booksForVersification_kept h.verseManager hsystem
    rw [← h.lManager] at hbooks
    dsimp only
    rw [bibles.toVerseKey_eq i, tables, hbooks, Option.map_some]
    refine ⟨⟨some (tableOf (bibles.module i)
      (translate (stamps.seen (schemeOf getVersificationSystem bibles i))) S), mgr'⟩, ?_, rfl,
      hkept⟩
    rw [tableOf, bibles.toVerseKey_eq i]
    rfl

/-- A Bible whose scheme nobody knows has no table. -/
theorem Stamped.books_eq_none (h : Stamped translate getVersificationSystem bibles stamps s)
    {i : ι}
    (hsystem : getVersificationSystem (schemeOf getVersificationSystem bibles i) = none) :
    SwordBible.books (bibles.module i) (translate s.lManager) getVersificationSystem (s.tables i) =
      none := by
  unfold SwordBible.books
  cases htable : (s.tables i).books with
  | some table =>
    obtain ⟨system, lManager, hknown, -, -⟩ := h.books i table htable
    rw [hsystem] at hknown
    cases hknown
  | none =>
    obtain ⟨hnone, -⟩ := SwordVerseManager.booksForVersification_unknown h.verseManager hsystem
      (translate s.lManager)
    dsimp only
    rw [bibles.toVerseKey_eq i, tables, hnone, Option.map_none]

/-! ## Runs -/

variable {emptyIsPrefix : Bool} {L : LocaleMgr σ}

variable (emptyIsPrefix L getVersificationSystem bibles) in
/-- What a call does to what is kept: another language is set, or the books of a scheme are asked
for. -/
def eventOf : LanguageCall ι → Event σ String
  | .initLocaleWithLocaledPath preferredLanguages aPath =>
    .change (SwordLocaleManager.initLocaleWithLocaledPath emptyIsPrefix L preferredLanguages aPath)
  | .booksForVersification verseScheme =>
    .ask (SwordVerseManager.served getVersificationSystem verseScheme)
  | .ask i _ => .ask (schemeOf getVersificationSystem bibles i)

/-- Who was asked for a scheme that nobody knows has kept nothing. -/
theorem Stamped.ask_unknown (h : Stamped translate getVersificationSystem bibles stamps s)
    {verseScheme : String}
    (hsystem : getVersificationSystem
      (SwordVerseManager.served getVersificationSystem verseScheme) = none) :
    Stamped translate getVersificationSystem bibles
      (FirstAsk.step stamps (.ask (SwordVerseManager.served getVersificationSystem verseScheme)))
      s where
  lManager := h.lManager
  verseManager := (SwordVerseManager.booksForVersification_unknown h.verseManager hsystem id).2
  books i table htable := by
    obtain ⟨system, lManager, hknown, hstamp, heq⟩ := h.books i table htable
    exact ⟨system, lManager, hknown, step_stamp_of_some hstamp _, heq⟩

variable [DecidableEq ι]

/-- **One call** does to what is kept what it does to the stamps. -/
theorem Stamped.step (h : Stamped translate getVersificationSystem bibles stamps s)
    (call : LanguageCall ι) :
    Stamped translate getVersificationSystem bibles
      (FirstAsk.step stamps (eventOf getVersificationSystem bibles emptyIsPrefix L call))
      (s.step emptyIsPrefix L translate getVersificationSystem bibles P call) := by
  cases call with
  | initLocaleWithLocaledPath preferredLanguages aPath =>
    refine ⟨?_, h.verseManager, h.books⟩
    exact congrArg (SwordLocaleManager.initLocaleWithLocaledPath emptyIsPrefix L
      preferredLanguages aPath) h.lManager
  | booksForVersification verseScheme =>
    rw [KeptBooks.step, eventOf]
    cases hsystem : getVersificationSystem
        (SwordVerseManager.served getVersificationSystem verseScheme) with
    | none =>
      rw [(SwordVerseManager.booksForVersification_unknown h.verseManager hsystem _).1]
      exact h.ask_unknown hsystem
    | some system =>
      obtain ⟨mgr', hbooks, hkept⟩ :=
        SwordVerseManager.booksForVersification_kept h.verseManager hsystem
      rw [← h.lManager] at hbooks
      rw [hbooks]
      refine ⟨h.lManager, hkept, fun i table htable => ?_⟩
      obtain ⟨system, lManager, hknown, hstamp, heq⟩ := h.books i table htable
      exact ⟨system, lManager, hknown, step_stamp_of_some hstamp _, heq⟩
  | ask i call =>
    rw [KeptBooks.step, eventOf]
    cases hsystem : getVersificationSystem (schemeOf getVersificationSystem bibles i) with
    | none =>
      rw [TableCall.send_of_no_books P emptyIsPrefix (h.books_eq_none hsystem)]
      exact h.ask_unknown hsystem
    | some system =>
      obtain ⟨t, hbooks, htable, hkept⟩ := h.books_eq hsystem
      obtain ⟨answer, hsend, -⟩ := TableCall.send_of_books P emptyIsPrefix hbooks call
      rw [hsend]
      refine ⟨h.lManager, hkept, fun j table hj => ?_⟩
      change Function.update s.books i t.books j = some table at hj
      by_cases hji : j = i
      · rw [hji, Function.update_self, htable] at hj
        rw [hji]
        exact ⟨system, _, hsystem, step_stamp_ask _ _, (Option.some.inj hj).symm⟩
      · rw [Function.update_of_ne hji] at hj
        obtain ⟨system, lManager, hknown, hstamp, heq⟩ := h.books j table hj
        exact ⟨system, lManager, hknown, step_stamp_of_some hstamp _, heq⟩

/-- **All calls** do to what is kept what they do to the stamps. -/
theorem Stamped.run (h : Stamped translate getVersificationSystem bibles stamps s)
    (calls : List (LanguageCall ι)) :
    Stamped translate getVersificationSystem bibles
      (FirstAsk.run stamps (calls.map (eventOf getVersificationSystem bibles emptyIsPrefix L)))
      (s.run emptyIsPrefix L translate getVersificationSystem bibles P calls) := by
  induction calls generalizing s stamps with
  | nil => exact h
  | cons call calls ih => exact ih (h.step call)

omit [DecidableEq ι] in
/-- A Bible answers from the table of its system, in the language of its scheme. -/
theorem Stamped.answer_eq (h : Stamped translate getVersificationSystem bibles stamps s) {i : ι}
    (hsystem : getVersificationSystem (schemeOf getVersificationSystem bibles i) = some S)
    (call : TableCall) :
    s.answer emptyIsPrefix translate getVersificationSystem bibles P i call =
      call.answerFrom emptyIsPrefix (bibles.module i) P (tableOf (bibles.module i)
        (translate (stamps.seen (schemeOf getVersificationSystem bibles i))) S) := by
  obtain ⟨t, hbooks, -⟩ := h.books_eq hsystem
  obtain ⟨answer, hsend, hanswer⟩ := TableCall.send_of_books P emptyIsPrefix hbooks call
  rw [KeptBooks.answer, hsend, hanswer, Option.map_some]

omit [DecidableEq ι] in
/-- Where nothing was asked for yet a Bible answers in the language that is set. -/
theorem answer_initial {i : ι}
    (hsystem : getVersificationSystem (schemeOf getVersificationSystem bibles i) = some S)
    (lManager : σ) (call : TableCall) :
    (initial lManager).answer emptyIsPrefix translate getVersificationSystem bibles P i call =
      call.answerFrom emptyIsPrefix (bibles.module i) P
        (tableOf (bibles.module i) (translate lManager) S) :=
  (Stamped.initial lManager).answer_eq hsystem call

/-- Tables that are answered from alike have the same names. -/
theorem translate_eq_of_bookList {B : BibleModule Key} {translate translate' : String → String}
    {order : EnumerationOrder SwordBibleBook}
    (h : (TableCall.bookList order).answerFrom emptyIsPrefix B P (tableOf B translate S) =
      (TableCall.bookList order).answerFrom emptyIsPrefix B P (tableOf B translate' S))
    {book : Book} (hbook : book ∈ S.books) :
    translate book.longName = translate' book.longName := by
  have hlists : NSArray.sortedArrayUsing SwordBibleBook.compare
        (order.allValues (tableOf B translate S)) =
      NSArray.sortedArrayUsing SwordBibleBook.compare
        (order.allValues (tableOf B translate' S)) :=
    TableAnswer.books.inj (Option.some.inj h)
  obtain ⟨bb, hlookup⟩ := lookup_tableOf_isSome B translate hbook
  obtain ⟨hname, hlocalized, -⟩ := of_lookup_tableOf hlookup
  have hmem : bb ∈ order.allValues (tableOf B translate' S) := by
    rw [← NSArray.mem_sortedArrayUsing SwordBibleBook.compare, ← hlists,
      NSArray.mem_sortedArrayUsing]
    exact order.mem_allValues.mpr ⟨_, hlookup⟩
  obtain ⟨key, hlookup'⟩ := order.mem_allValues.mp hmem
  obtain ⟨hname', hlocalized', -⟩ := of_lookup_tableOf hlookup'
  rw [← hlocalized, hlocalized', ← hname', hname]

variable (getVersificationSystem bibles) in
/-- A call that asks for the books a Bible has: of the Bible, of another one or of the manager. -/
def AsksFor (i : ι) : LanguageCall ι → Prop
  | .initLocaleWithLocaledPath _ _ => False
  | .booksForVersification verseScheme =>
    SwordVerseManager.served getVersificationSystem verseScheme =
      schemeOf getVersificationSystem bibles i
  | .ask j _ => schemeOf getVersificationSystem bibles j = schemeOf getVersificationSystem bibles i

omit [DecidableEq ι] in
theorem eventOf_eq_ask_iff (call : LanguageCall ι) (i : ι) :
    eventOf getVersificationSystem bibles emptyIsPrefix L call =
        .ask (schemeOf getVersificationSystem bibles i) ↔
      AsksFor getVersificationSystem bibles i call := by
  cases call with
  | initLocaleWithLocaledPath preferredLanguages aPath => exact iff_of_false nofun id
  | booksForVersification verseScheme => exact ⟨Event.ask.inj, congrArg Event.ask⟩
  | ask j call => exact ⟨Event.ask.inj, congrArg Event.ask⟩

/-- **The names are those of the first asking.** Take any calls on Bibles, the verse manager and the
locale manager, the first of which to ask for the books of a Bible's versification is `first`. What
the Bible is asked afterwards it answers as if nothing had been asked for before, and the language
were the one that was set then; and so it answers in the language of the present exactly if that has
the same names for the books of the versification. -/
theorem names_of_first {i : ι} (hsystem : UsesSystem (bibles.module i) getVersificationSystem S)
    (lManager : σ) {before after : List (LanguageCall ι)} {first : LanguageCall ι}
    (hbefore : ∀ call ∈ before, ¬ AsksFor getVersificationSystem bibles i call)
    (hfirst : AsksFor getVersificationSystem bibles i first) :
    let atFirst := (initial lManager).run emptyIsPrefix L translate getVersificationSystem bibles P
      before
    let now := (initial lManager).run emptyIsPrefix L translate getVersificationSystem bibles P
      (before ++ first :: after)
    let answerIn := fun lManager call => (initial lManager).answer emptyIsPrefix translate
      getVersificationSystem bibles P i call
    (∀ call, now.answer emptyIsPrefix translate getVersificationSystem bibles P i call =
        answerIn atFirst.lManager call) ∧
      ((∀ call, now.answer emptyIsPrefix translate getVersificationSystem bibles P i call =
          answerIn now.lManager call) ↔
        ∀ book ∈ S.books,
          translate atFirst.lManager book.longName = translate now.lManager book.longName) := by
  intro atFirst now answerIn
  have hknown : getVersificationSystem (schemeOf getVersificationSystem bibles i) = some S := by
    rw [schemeOf, SwordVerseManager.getVersificationSystem_served getVersificationSystem]
    exact hsystem
  have hstart : Stamped translate getVersificationSystem bibles ⟨lManager, fun _ => none⟩
    (initial lManager) := Stamped.initial lManager
  have hthen := @Stamped.run _ _ _ _ _ _ P _ _ emptyIsPrefix L _ hstart before
  have hnow := @Stamped.run _ _ _ _ _ _ P _ _ emptyIsPrefix L _ hstart (before ++ first :: after)
  have hunasked : .ask (schemeOf getVersificationSystem bibles i) ∉
      before.map (eventOf getVersificationSystem bibles emptyIsPrefix L) := by
    rw [List.mem_map]
    rintro ⟨call, hcall, hevent⟩
    exact hbefore call hcall ((eventOf_eq_ask_iff call i).mp hevent)
  rw [List.map_append, List.map_cons, (eventOf_eq_ask_iff first i).mpr hfirst] at hnow
  have hkept : ∀ call, now.answer emptyIsPrefix translate getVersificationSystem bibles P i call =
      answerIn atFirst.lManager call := by
    intro call
    rw [hnow.answer_eq hknown, seen_of_stamp (run_stamp_of_first rfl hunasked _),
      ← hthen.lManager, ← answer_initial hknown]
  refine ⟨hkept, fun h book hbook => ?_, fun h call => ?_⟩
  · have hlist := (hkept (.bookList (.beginning ""))).symm.trans (h (.bookList (.beginning "")))
    dsimp only [answerIn] at hlist
    rw [answer_initial hknown, answer_initial hknown] at hlist
    exact translate_eq_of_bookList hlist hbook
  · rw [hkept]
    dsimp only [answerIn]
    rw [answer_initial hknown, answer_initial hknown, tableOf, tableOf,
      SwordVerseManager.booksOfSystem_congr h]

/-- An engine that knows one locale besides its own. -/
def germanLocale : LocaleMgr String where
  loadConfigDir locale _ := locale
  getAvailableLocales _ := ["de"]
  setDefaultLocaleName locale name := name.getD locale

/-- Its names for the books. -/
def germanNames (locale name : String) : String := if locale = "de" then rutLocale name else name

def oneBible : Bibles Unit (String × String) where
  module _ := psalm3Bible "KJV"
  verseKey := (psalm3Bible "KJV").toVerseKey
  toVerseKey_eq _ := rfl

/-- Ruth keeps her name when the language is changed after the list of books was asked for. -/
theorem names_of_first_rut :
    let now := (initial "en").run false germanLocale germanNames (fun _ => some ruthCanon) oneBible
      (atFirstVerse ruth)
      [.ask () (.bookList (.beginning "")), .initLocaleWithLocaledPath ["de-DE"] "locales.d"]
    now.lManager = "de" ∧
      ¬ ∀ call, now.answer false germanNames (fun _ => some ruthCanon) oneBible (atFirstVerse ruth)
          () call =
        (initial now.lManager).answer false germanNames (fun _ => some ruthCanon) oneBible
          (atFirstVerse ruth) () call :=
  ⟨by decide, fun h => absurd ((@names_of_first Unit (String × String) String germanNames
    (fun _ => some ruthCanon) oneBible (atFirstVerse ruth) ruthCanon false germanLocale _ ()
    (usesSystem_only (psalm3Bible "KJV") ruthCanon) "en" []
    [.initLocaleWithLocaledPath ["de-DE"] "locales.d"] (.ask () (.bookList (.beginning "")))
    (fun _ hcall => absurd hcall List.not_mem_nil) rfl).2.mp h ruth List.mem_cons_self)
      (by decide)⟩

end KeptBooks

end ObjCSword
