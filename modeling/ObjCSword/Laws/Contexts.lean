import ObjCSword.SwordBible

/-!
# The context of a reference

`context:` completes an abbreviated reference and takes it apart again: at the colon for the chapter
of a verse, and at the first space for the book. A book's name may have a space in it, so what is
returned is the first word of the name (`context_iff`).
-/

namespace ObjCSword.SwordBible

open Sword NSString

variable {Key : Type}

/-- A book and a chapter of it. -/
def chapterText (bookName : String) (chapter : Nat) : String :=
  .ofList (bookName.toList ++ ' ' :: Nat.toDigits 10 chapter)

/-- The full text of a reference to a verse. -/
def verseText (bookName : String) (chapter verse : Nat) : String :=
  .ofList ((chapterText bookName chapter).toList ++ ':' :: Nat.toDigits 10 verse)

/-- An abbreviation that is taken for one of a verse. -/
def IsVerse (abbr : String) : Prop := ':' ∈ abbr.toList ∨ '.' ∈ abbr.toList

instance (abbr : String) : Decidable (IsVerse abbr) := inferInstanceAs (Decidable (_ ∨ _))

theorem not_mem_toDigits {n : Nat} {c : Char} (hc : c.isDigit = false) :
    c ∉ Nat.toDigits 10 n := by
  intro hmem
  rw [Nat.isDigit_of_mem_toDigits (by omega) (by omega) hmem] at hc
  exact absurd hc (by decide)

/-- The colon of a full reference is the one between chapter and verse. -/
theorem colon_not_mem_chapterText {bookName : String} (h : ':' ∉ bookName.toList)
    (chapter : Nat) : ':' ∉ (chapterText bookName chapter).toList := by
  rw [chapterText, String.toList_ofList, List.mem_append, List.mem_cons, not_or, not_or]
  exact ⟨h, by decide, not_mem_toDigits rfl⟩

/-- A verse's context is its chapter. -/
theorem context_of_isVerse {V : VerseKey Key} {abbr bookName : String} {chapter verse : Nat}
    (hcolon : ':' ∉ bookName.toList)
    (hfirst : firstRefName V abbr = verseText bookName chapter verse) (h : IsVerse abbr) :
    context V abbr = some (chapterText bookName chapter) := by
  have hall : ∀ c ∈ (chapterText bookName chapter).toList, decide (c ≠ ':') = true :=
    fun c hc => decide_eq_true fun heq => colon_not_mem_chapterText hcolon chapter (heq ▸ hc)
  have hif : ':' ∈ abbr.toList ∨ '.' ∈ abbr.toList := h
  simp only [context, if_pos hif]
  rw [components_head, hfirst, verseText, String.toList_ofList,
    Lib.Lists.takeWhile_append_separator, List.takeWhile_eq_self_iff.mpr hall, String.ofList_toList]

/-- What else is asked for is answered with the first word of the book's name. -/
theorem context_of_not_isVerse {V : VerseKey Key} {abbr bookName : String} {chapter verse : Nat}
    (hfirst : firstRefName V abbr = verseText bookName chapter verse) (h : ¬ IsVerse abbr) :
    context V abbr = some (.ofList (bookName.toList.takeWhile (· ≠ ' '))) := by
  have hif : ¬ (':' ∈ abbr.toList ∨ '.' ∈ abbr.toList) := h
  have hsome : 0 < (componentsSeparatedByString (firstRefName V abbr) ' ').length := by
    by_contra hnil
    have hhead := components_head (firstRefName V abbr) ' '
    rw [List.getElem?_eq_none (by omega)] at hhead
    cases hhead
  simp only [context, if_neg hif, if_pos hsome]
  rw [components_head, hfirst, verseText, chapterText, String.toList_ofList, String.toList_ofList,
    List.append_assoc, List.cons_append, Lib.Lists.takeWhile_append_separator]

/-- **The context is the chapter of a verse, or else the book, exactly where a verse is asked for or
the book's name is one word.** -/
theorem context_iff {V : VerseKey Key} {abbr bookName : String} {chapter verse : Nat}
    (hcolon : ':' ∉ bookName.toList)
    (hfirst : firstRefName V abbr = verseText bookName chapter verse) :
    context V abbr = some (if IsVerse abbr then chapterText bookName chapter else bookName) ↔
      IsVerse abbr ∨ ' ' ∉ bookName.toList := by
  by_cases h : IsVerse abbr
  · rw [if_pos h, context_of_isVerse hcolon hfirst h]
    exact iff_of_true rfl (Or.inl h)
  · have hword : String.ofList (bookName.toList.takeWhile (· ≠ ' ')) = bookName ↔
        ' ' ∉ bookName.toList := by
      rw [← String.toList_inj, String.toList_ofList, List.takeWhile_eq_self_iff]
      constructor
      · exact fun hall hmem => of_decide_eq_true (hall ' ' hmem) rfl
      · exact fun hno c hc => decide_eq_true fun heq => hno (heq ▸ hc)
    rw [if_neg h, context_of_not_isVerse hfirst h, Option.some.injEq, hword, or_iff_right h]

/-! ## Two abbreviations -/

def fullName (abbr : String) : String :=
  if abbr = "Rut" then "Ruth 1:1" else if abbr = "1Sam" then "I Samuel 1:1" else abbr

/-- Verse keys that are their text, and complete an abbreviation. -/
def completingKey : VerseKey String where
  setText k text := (text.map fullName).getD k
  getText k := k
  init := "Genesis 1:1"
  setVersificationSystem k _ := k
  setIntros k _ := k
  getTestament _ := 1
  getBook _ := 1
  getVerse _ := 1
  setTestament k _ := k
  setBook k _ := k
  setChapter k _ := k
  setVerse k _ := k
  increment k := k
  parseVerseList _ ref _ _ := ref.toList

theorem context_ruth :
    context completingKey "Rut" =
      some (if IsVerse "Rut" then chapterText "Ruth" 1 else "Ruth") :=
  (context_iff (by decide) (by decide : firstRefName completingKey "Rut" =
    verseText "Ruth" 1 1)).mpr (Or.inr (by decide))

/-- Of the book of Samuel the numeral is left. -/
theorem context_samuel :
    firstRefName completingKey "1Sam" = verseText "I Samuel" 1 1 ∧
      ':' ∉ "I Samuel".toList ∧ ¬ IsVerse "1Sam" ∧
      context completingKey "1Sam" = some "I" ∧
      context completingKey "1Sam" ≠
        some (if IsVerse "1Sam" then chapterText "I Samuel" 1 else "I Samuel") := by
  decide

end ObjCSword.SwordBible
