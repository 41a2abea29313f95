import ObjCSword.SwordBibleBook

/-!
# The books of a versification

`SwordVerseManager` makes the book objects of a versification when they are first asked for and
keeps them under the name of the scheme. The lists it keeps are a cache of `booksOfSystem`
(`Coherent`), which every lookup respects, that of an unknown scheme included: the books of the KJV
it then hands out are kept under the KJV's own name. So whatever was asked before, a known scheme is
answered with the books of its system (`booksForVersification_known`).
-/

namespace ObjCSword.SwordVerseManager

open Sword

variable {Key : Type} (V : VerseKey Key) (translate : String → String)
  (getVersificationSystem : String → Option System)

/-- Each list that is kept is the one of the system of its scheme. -/
def Coherent (mgr : SwordVerseManager) : Prop :=
  ∀ scheme books, AList.lookup scheme mgr.booksPerVersification = some books →
    (getVersificationSystem scheme).map (booksOfSystem V translate) = some books

/-- The manager after it was asked for a scheme. -/
def afterLookup (mgr : SwordVerseManager) (verseScheme : String) : SwordVerseManager :=
  ((booksForVersification V translate getVersificationSystem mgr verseScheme).map Prod.snd).getD mgr

/-- The manager after it was asked for some schemes, from the start. -/
def afterLookups (verseSchemes : List String) : SwordVerseManager :=
  verseSchemes.foldl (afterLookup V translate getVersificationSystem) ⟨∅⟩

variable {V translate getVersificationSystem}

/-- **One lookup** in a coherent manager answers with the books of the system, kept or new. -/
theorem lookUpBooks_fst {mgr : SwordVerseManager}
    (coherent : mgr.Coherent V translate getVersificationSystem) (verseScheme : String) :
    (lookUpBooks V translate getVersificationSystem mgr verseScheme).map Prod.fst =
      (getVersificationSystem verseScheme).map (booksOfSystem V translate) := by
  unfold lookUpBooks
  cases hkept : AList.lookup verseScheme mgr.booksPerVersification with
  | some books => exact (coherent verseScheme books hkept).symm
  | none =>
    rw [Option.map_map]
    rfl

/-- A lookup keeps the manager coherent: what it adds is the list of the scheme's system. -/
theorem coherent_lookUpBooks {mgr mgr' : SwordVerseManager}
    (coherent : mgr.Coherent V translate getVersificationSystem) {verseScheme : String}
    {books : List SwordBibleBook}
    (h : lookUpBooks V translate getVersificationSystem mgr verseScheme = some (books, mgr')) :
    mgr'.Coherent V translate getVersificationSystem := by
  unfold lookUpBooks at h
  cases hkept : AList.lookup verseScheme mgr.booksPerVersification with
  | some books =>
    rw [hkept] at h
    cases h
    exact coherent
  | none =>
    rw [hkept] at h
    obtain ⟨system, hsystem, hout⟩ := Option.map_eq_some_iff.mp h
    cases hout
    intro scheme books hbooks
    rw [Dictionary.lookup_insert] at hbooks
    by_cases hscheme : scheme = verseScheme
    · rw [if_pos hscheme] at hbooks
      rw [hscheme, hsystem]
      exact hbooks
    · rw [if_neg hscheme] at hbooks
      exact coherent scheme books hbooks

theorem coherent_afterLookup {mgr : SwordVerseManager}
    (coherent : mgr.Coherent V translate getVersificationSystem) (verseScheme : String) :
    (mgr.afterLookup V translate getVersificationSystem verseScheme).Coherent V translate
      getVersificationSystem := by
  unfold afterLookup booksForVersification
  cases hown : lookUpBooks V translate getVersificationSystem mgr verseScheme with
  | some out => exact coherent_lookUpBooks coherent hown
  | none =>
    cases hkjv : lookUpBooks V translate getVersificationSystem mgr SW_VERSIFICATION_KJV with
    | some out => exact coherent_lookUpBooks coherent hkjv
    | none => exact coherent

/-- Whatever was asked for, the manager is coherent. -/
theorem coherent_afterLookups (verseSchemes : List String) :
    (afterLookups V translate getVersificationSystem verseSchemes).Coherent V translate
      getVersificationSystem := by
  refine List.foldlRecOn verseSchemes _ ?_ fun mgr coherent verseScheme _ =>
    coherent_afterLookup coherent verseScheme
  intro scheme books hbooks
  rw [AList.lookup_empty] at hbooks
  cases hbooks

variable (V translate) in
/-- **A known scheme is answered with the books of its system**, whatever was asked for before. -/
theorem booksForVersification_known (verseSchemes : List String) {verseScheme : String}
    {system : System} (hsystem : getVersificationSystem verseScheme = some system) :
    (booksForVersification V translate getVersificationSystem
      (afterLookups V translate getVersificationSystem verseSchemes) verseScheme).map Prod.fst =
        some (booksOfSystem V translate system) := by
  have coherent : (afterLookups V translate getVersificationSystem verseSchemes).Coherent V
      translate getVersificationSystem := coherent_afterLookups verseSchemes
  rw [booksForVersification, Option.map_or, lookUpBooks_fst coherent, hsystem, Option.map_some,
    Option.some_or]

end ObjCSword.SwordVerseManager
