import ObjCSword.SwordModule

/-!
# Texts that are given to the filters

A module renders and strips the entry it stands on, and a text it is given. Of the four methods the
one that is to strip a given text renders it, so it answers what the render filters leave. That is
right where the strip filters leave the same (`textsFromString_iff`).
-/

namespace ObjCSword.SwordModule

open Sword NSString

variable {Key : Type}

/-- A text that is given is answered like an entry that has it: stripped by the strip filters, and
where the module stands on such an entry, as that entry is stripped and rendered. -/
structure TextsFromString (M : FilteredModule Key) (s : String) (m : ModuleState Key) : Prop where
  stripped : strippedTextFromString M (some s) m =
    stringOfAnswer (runFilters M.processText m.key M.stripFilters (UTF8String s))
  strippedEntry : M.getRawEntry m.key = UTF8String s →
    strippedTextFromString M (some s) m = (strippedText M.toSWModule m).1
  renderedEntry : M.getRawEntry m.key = UTF8String s →
    renderedTextFromString M (some s) m = (renderedText M.toSWModule m).1

/-- What is rendered of a text, or of the entry where none is given. -/
theorem renderedTextFromString_eq (M : FilteredModule Key) (aString : Option String)
    (m : ModuleState Key) : renderedTextFromString M aString m =
      stringOfAnswer (M.renderTextOf m.key (aString.map UTF8String)) := by
  rw [renderedTextFromString, stringOfAnswer]
  cases stringWithUTF8String (M.renderTextOf m.key (aString.map UTF8String)) with
  | none => rfl
  | some ret => rfl

/-- Stripping a given text is rendering it. -/
theorem strippedTextFromString_eq (M : FilteredModule Key) (aString : Option String)
    (m : ModuleState Key) :
    strippedTextFromString M aString m = renderedTextFromString M aString m := rfl

/-- **A given text is answered like an entry exactly where the render filters and the strip filters
leave the same of it.** -/
theorem textsFromString_iff (M : FilteredModule Key) (s : String) (m : ModuleState Key) :
    TextsFromString M s m ↔
      stringOfAnswer (runFilters M.processText m.key M.renderFilters (UTF8String s)) =
        stringOfAnswer (runFilters M.processText m.key M.stripFilters (UTF8String s)) := by
  have hrendered : renderedTextFromString M (some s) m =
      stringOfAnswer (runFilters M.processText m.key M.renderFilters (UTF8String s)) :=
    renderedTextFromString_eq M (some s) m
  constructor
  · intro h
    rw [← hrendered, ← strippedTextFromString_eq, h.stripped]
  · intro h
    refine ⟨by rw [strippedTextFromString_eq, hrendered, h], fun hraw => ?_, fun hraw => ?_⟩
    · rw [strippedTextFromString_eq, hrendered, h, ← hraw]
      exact (M.stripText_eq m.key).symm
    · rw [hrendered, ← hraw]
      exact (M.renderText_eq m.key).symm

/-! ## A module with a plain text filter -/

/-- What stands outside of tags. -/
def withoutTags : Bool → CString → CString
  | _, [] => []
  | inTag, b :: rest =>
    if b = 0x3C then withoutTags true rest
    else if b = 0x3E then withoutTags false rest
    else if inTag then withoutTags inTag rest
    else b :: withoutTags inTag rest

/-- A filter that writes plain text leaves out the tags. -/
def processTags (filter : SWFilter) (_key : CString) (buf : CString) : CString :=
  if filter.cls.writesPlain then withoutTags false buf else buf

/-- A module whose keys are its raw entries, with the filters for ThML. -/
def taggedModule : FilteredModule CString :=
  let renderFilters := [⟨0, .ThMLHTMLHREF⟩]
  let stripFilters := [⟨1, .ThMLPlain⟩]
  { setText := fun k text => (text.map UTF8String).getD k
    getText := fun _ => ""
    createKey := []
    error := fun _ => false
    renderText := fun k => stringOfAnswer (runFilters processTags k renderFilters k)
    stripText := fun k => stringOfAnswer (runFilters processTags k stripFilters k)
    entryAttributes := fun _ => ∅
    getConfigEntry := fun _ => none
    has := fun _ _ => false
    globalOption := fun _ => false
    name := "KJV"
    type := "Biblical Texts"
    markup := .thml
    renderFilters := renderFilters
    stripFilters := stripFilters
    getRawEntry := fun k => k
    processText := processTags
    renderText_eq := fun _ => rfl
    stripText_eq := fun _ => rfl }

/-- The tags are left in what is to be stripped of them. -/
theorem tags_kept :
    strippedTextFromString taggedModule (some "<i>LORD</i>")
        ⟨UTF8String "<i>LORD</i>", false, ∅⟩ = some "<i>LORD</i>" ∧
      (strippedText taggedModule.toSWModule ⟨UTF8String "<i>LORD</i>", false, ∅⟩).1 =
        some "LORD" ∧
      ¬ TextsFromString taggedModule "<i>LORD</i>" ⟨UTF8String "<i>LORD</i>", false, ∅⟩ := by
  have hgiven : strippedTextFromString taggedModule (some "<i>LORD</i>")
      ⟨UTF8String "<i>LORD</i>", false, ∅⟩ = some "<i>LORD</i>" := by
    rw [strippedTextFromString_eq, renderedTextFromString_eq]
    exact stringOfAnswer_UTF8String "<i>LORD</i>"
  have hentry : (strippedText taggedModule.toSWModule
      ⟨UTF8String "<i>LORD</i>", false, ∅⟩).1 = some "LORD" := by
    have htags : withoutTags false (UTF8String "<i>LORD</i>") = UTF8String "LORD" := by decide
    show stringOfAnswer (withoutTags false (UTF8String "<i>LORD</i>")) = some "LORD"
    rw [htags, stringOfAnswer_UTF8String]
  refine ⟨hgiven, hentry, fun h => ?_⟩
  have hsame := h.strippedEntry rfl
  rw [hgiven, hentry] at hsame
  exact absurd hsame (by decide)

end ObjCSword.SwordModule
