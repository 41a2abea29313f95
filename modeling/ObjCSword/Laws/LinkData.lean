import ObjCSword.Laws.Reading

/-!
# What a parsed link is answered with

`attributeValueForParsedLinkData:withTextRenderType:` looks a link up in the module. Each kind of
link is one lookup (`attributeValue_note`, `attributeValue_cross`, `attributeValue_reference`), and
only the first of them puts the module's key on the passage of the link: the reference list of a
cross reference is read wherever the module stands.

`history_free_iff` is the law about two histories of one module: both give the answer of the linked
passage exactly when the link is a note, or the reference lists found at the two positions happen to
name what the one at the passage names.
-/

namespace ObjCSword

open Sword

variable {Key : Type}

/-! ## The lookups -/

namespace SwordModule

/-- The passage the method takes from a link. -/
def passageOf (data : Dictionary String) : Option String :=
  (AList.lookup ATTRTYPE_PASSAGE data).bind unescapedParameter

/-- The body of a note of a passage. -/
def noteLookup (M : SWModule Key) (passage index : Option String) (m : ModuleState Key) :
    AttributeValue × ModuleState Key :=
  let m := setKeyText M passage m
  let (footnoteText, m) := entryAttributeValueFootnoteForKey M "n" index (getKey m) m
  (.text footnoteText, m)

/-- The text entries of a reference. -/
def referenceLookup (self : TextEntries Key) (textType : RenderType) (reference : Option String)
    (m : ModuleState Key) : AttributeValue × ModuleState Key :=
  let (ret, m) :=
    if textType = .rendered then self.renderedTextEntriesForReference reference m
    else self.strippedTextEntriesForReference reference m
  match ret with
  | some entries => (.entries entries, m)
  | none => (.nil, m)

theorem attributeValue_note {M : SWModule Key} {self : TextEntries Key} {data : Dictionary String}
    (htype : AList.lookup ATTRTYPE_TYPE data = some "n") (textType : RenderType)
    (m : ModuleState Key) :
    attributeValueForParsedLinkData M self data textType m =
      noteLookup M (passageOf data) (AList.lookup ATTRTYPE_VALUE data) m := by
  rw [attributeValueForParsedLinkData, if_pos htype]
  rfl

theorem attributeValue_cross {M : SWModule Key} {self : TextEntries Key} {data : Dictionary String}
    (htype : AList.lookup ATTRTYPE_TYPE data = some "x") (textType : RenderType)
    (m : ModuleState Key) :
    attributeValueForParsedLinkData M self data textType m =
      let (refList, m) :=
        entryAttributeValueFootnoteForKey M "x" (AList.lookup ATTRTYPE_VALUE data) (getKey m) m
      referenceLookup self textType (some refList) m := by
  have hnote : AList.lookup ATTRTYPE_TYPE data ≠ some "n" := by
    rw [htype]
    decide
  rw [attributeValueForParsedLinkData, if_neg hnote, if_pos (Or.inl htype), if_pos htype]
  rfl

theorem attributeValue_reference {M : SWModule Key} {self : TextEntries Key}
    {data : Dictionary String}
    (htype : AList.lookup ATTRTYPE_TYPE data = some "scriptRef" ∨
      AList.lookup ATTRTYPE_TYPE data = some "scripRef") (textType : RenderType)
    (m : ModuleState Key) :
    attributeValueForParsedLinkData M self data textType m =
      referenceLookup self textType
        ((AList.lookup ATTRTYPE_VALUE data).bind unescapedParameter) m := by
  have hnote : AList.lookup ATTRTYPE_TYPE data ≠ some "n" := by
    rcases htype with htype | htype <;> (rw [htype]; decide)
  have hcross : AList.lookup ATTRTYPE_TYPE data ≠ some "x" := by
    rcases htype with htype | htype <;> (rw [htype]; decide)
  rw [attributeValueForParsedLinkData, if_neg hnote, if_pos (Or.inr htype), if_neg hcross]
  rfl

/-- What a footnote is read from: the attributes of the key it is asked for. -/
theorem entryAttributeValueFootnoteForKey_fst (M : SWModule Key) (fnType : String)
    (index : Option String) (aKey : Key) (m : ModuleState Key) :
    (entryAttributeValueFootnoteForKey M fnType index aKey m).1 =
      entryAttributeValueFootnoteOfType fnType index
        { m with entryAttributes := M.entryAttributes aKey } := rfl

end SwordModule

/-! ## Modules of every class -/

/-- An object that inherits the method: a plain module, or a Bible or commentary, which reads
references its own way. -/
inductive LinkedModule (Key : Type) where
  | plain (M : SWModule Key)
  | bible (B : BibleModule Key)

namespace LinkedModule

/-- The engine module. -/
def engine : LinkedModule Key → SWModule Key
  | plain M => M
  | bible B => B.toSWModule

/-- The methods its class answers to. -/
def methods : LinkedModule Key → TextEntries Key
  | plain M => SwordModule.textEntries M
  | bible B => SwordBible.textEntries B

/-- `attributeValueForParsedLinkData:withTextRenderType:` sent to the object. -/
def attributeValueForParsedLinkData (self : LinkedModule Key) (data : Dictionary String)
    (textType : RenderType) (m : ModuleState Key) : AttributeValue × ModuleState Key :=
  SwordModule.attributeValueForParsedLinkData self.engine self.methods data textType m

/-- The entries the object reads for a reference that it is asked for by name. -/
def entriesOf (self : LinkedModule Key) (textType : RenderType) (reference : String) :
    AttributeValue :=
  match self with
  | plain M =>
    match SwordModule.entryAt M textType (some reference) with
    | some entry => .entries [entry]
    | none => .nil
  | bible B =>
    .entries ((SwordBible.versesOf B (some reference)).filterMap (SwordBible.entryAt B textType))

/-- The keys of the entries that a reference names and that can be read. -/
def readableKeys (self : LinkedModule Key) (textType : RenderType) (reference : String) :
    List String :=
  match self with
  | plain M =>
    [reference].filter fun key => (SwordModule.entryAt M textType (some key)).isSome
  | bible B =>
    (SwordBible.versesOf B (some reference)).filter fun key =>
      (SwordBible.entryAt B textType key).isSome

/-- In a Bible, a key of its versification that is set to the text of a verse answers with it. -/
def KeepsTexts (own : Key → Prop) : LinkedModule Key → Prop
  | plain _ => True
  | bible B => SwordBible.OwnKeys B own ∧
      ∀ (ref : Option String) (k : Key), own k → ∀ verse ∈ SwordBible.versesOf B ref,
        B.getText (B.setText k (some verse)) = verse

/-- The answer for a reference does not come from where the module stands. -/
theorem referenceLookup_eq {self : LinkedModule Key} {own : Key → Prop}
    (texts : self.KeepsTexts own)
    (textType : RenderType) (reference : String) (m : ModuleState Key) :
    (SwordModule.referenceLookup self.methods textType (some reference) m).1 =
      self.entriesOf textType reference := by
  cases self with
  | plain M =>
    have hentries := fun aType => SwordModule.textEntriesForReference_eq M (some reference) aType
      (fun _ _ => ()) () m
    cases textType with
    | rendered =>
      simp only [SwordModule.referenceLookup, methods, SwordModule.textEntries, if_true,
        SwordModule.renderedTextEntriesForReference, hentries, entriesOf]
      cases SwordModule.entryAt M .rendered (some reference) with
      | none => rfl
      | some entry => rfl
    | stripped =>
      simp only [SwordModule.referenceLookup, methods, SwordModule.textEntries, reduceCtorEq,
        if_false, SwordModule.strippedTextEntriesForReference, hentries, entriesOf]
      cases SwordModule.entryAt M .stripped (some reference) with
      | none => rfl
      | some entry => rfl
  | bible B =>
    have hentries := fun aType => (SwordBible.textEntriesForReferenceInContext_zero
      texts.1 (texts.2 (some reference)) aType (fun _ _ => ()) () m).1
    cases textType with
    | rendered => exact congrArg AttributeValue.entries (hentries .rendered)
    | stripped => exact congrArg AttributeValue.entries (hentries .stripped)

/-- Two references have the same entries exactly when they name the same keys that can be read. -/
theorem entriesOf_eq_iff (self : LinkedModule Key) (textType : RenderType)
    (reference reference' : String) :
    self.entriesOf textType reference = self.entriesOf textType reference' ↔
      self.readableKeys textType reference = self.readableKeys textType reference' := by
  cases self with
  | plain M =>
    have hback : ∀ keys : List String, ∀ key ∈ keys, ∀ entry,
        SwordModule.entryAt M textType (some key) = some entry → entry.key.getD "" = key :=
      fun keys key _ entry h => by rw [SwordModule.key_of_entryAt h, Option.getD_some]
    have hiff := Lib.Lists.filterMap_eq_iff
      (fun key => SwordModule.entryAt M textType (some key)) (fun entry => entry.key.getD "")
      (hback [reference]) (hback [reference'])
    rw [readableKeys, readableKeys, ← hiff, entriesOf, entriesOf]
    cases h : SwordModule.entryAt M textType (some reference) with
    | none =>
      cases h' : SwordModule.entryAt M textType (some reference') with
      | none => simp only [List.filterMap_cons, h, h']
      | some entry' => simp [h, h']
    | some entry =>
      cases h' : SwordModule.entryAt M textType (some reference') with
      | none => simp [h, h']
      | some entry' => simp [h, h']
  | bible B =>
    rw [entriesOf, entriesOf, AttributeValue.entries.injEq, readableKeys, readableKeys]
    have hback : ∀ verses : List String, ∀ verse ∈ verses, ∀ entry,
        SwordBible.entryAt B textType verse = some entry → entry.key.getD "" = verse :=
      fun verses verse _ entry h => by rw [SwordBible.key_of_entryAt h, Option.getD_some]
    exact Lib.Lists.filterMap_eq_iff _ (fun entry => entry.key.getD "") (hback _) (hback _)

/-! ## Two histories -/

/-- The reference list of the footnote a link names, as the attributes of some key give it. -/
def refList (attributes : AttributeTypeList) (data : Dictionary String) : String :=
  attributes.value "Footnote" ((AList.lookup ATTRTYPE_VALUE data).getD "") "refList"

/-- The answer of a note or a cross reference, read at the passage of the link. -/
def answerAtPassage (self : LinkedModule Key)
    (attributesOf : Option String → AttributeTypeList) (data : Dictionary String)
    (textType : RenderType) : AttributeValue :=
  let attributes := attributesOf (SwordModule.passageOf data)
  if AList.lookup ATTRTYPE_TYPE data = some "n" then
    .text (attributes.value "Footnote" ((AList.lookup ATTRTYPE_VALUE data).getD "") "body")
  else self.entriesOf textType (refList attributes data)

/-- The reference list found at a key names the verses that the one at the link's passage names. -/
def FindsSameVerses (self : LinkedModule Key) (attributesOf : Option String → AttributeTypeList)
    (data : Dictionary String) (textType : RenderType) (key : Key) : Prop :=
  self.readableKeys textType (refList (self.engine.entryAttributes key) data) =
    self.readableKeys textType (refList (attributesOf (SwordModule.passageOf data)) data)

/-- Setting the text of one of the module's own keys moves it to that passage: rendering there finds
the attributes of the passage. -/
def Moves (self : LinkedModule Key) (own : Key → Prop)
    (attributesOf : Option String → AttributeTypeList) : Prop :=
  ∀ k text, own k → self.engine.entryAttributes (self.engine.setText k text) = attributesOf text

/-- A note is answered at its passage from every position. -/
theorem answer_note {self : LinkedModule Key} {own : Key → Prop}
    {attributesOf : Option String → AttributeTypeList} (moves : self.Moves own attributesOf)
    {data : Dictionary String} (htype : AList.lookup ATTRTYPE_TYPE data = some "n")
    (textType : RenderType) {m : ModuleState Key} (hown : own m.key) :
    (self.attributeValueForParsedLinkData data textType m).1 =
      self.answerAtPassage attributesOf data textType := by
  have hbody := SwordModule.entryAttributeValueFootnoteForKey_fst self.engine "n"
    (AList.lookup ATTRTYPE_VALUE data)
    (self.engine.setText m.key (SwordModule.passageOf data))
    (SwordModule.setKeyText self.engine (SwordModule.passageOf data) m)
  rw [moves _ _ hown] at hbody
  rw [attributeValueForParsedLinkData, SwordModule.attributeValue_note htype, answerAtPassage,
    if_pos htype]
  exact congrArg AttributeValue.text hbody

/-- A cross reference is answered with the reference list of wherever the module stands. -/
theorem answer_cross {self : LinkedModule Key} {own : Key → Prop} (texts : self.KeepsTexts own)
    {data : Dictionary String} (htype : AList.lookup ATTRTYPE_TYPE data = some "x")
    (textType : RenderType) (m : ModuleState Key) :
    (self.attributeValueForParsedLinkData data textType m).1 =
      self.entriesOf textType (refList (self.engine.entryAttributes m.key) data) := by
  rw [attributeValueForParsedLinkData, SwordModule.attributeValue_cross htype]
  exact referenceLookup_eq texts textType _ _

/-- **Two histories.** From both positions of the module a note or cross reference is answered as
its passage says exactly when it is a note, or the reference lists that stand at both positions name
the verses which the one at the passage names. -/
theorem history_free_iff (self : LinkedModule Key) {own : Key → Prop}
    (texts : self.KeepsTexts own) {attributesOf : Option String → AttributeTypeList}
    (moves : self.Moves own attributesOf) {data : Dictionary String}
    (htype : AList.lookup ATTRTYPE_TYPE data = some "n" ∨
      AList.lookup ATTRTYPE_TYPE data = some "x")
    (textType : RenderType) (m₁ m₂ : ModuleState Key) (hown₁ : own m₁.key) (hown₂ : own m₂.key) :
    ((self.attributeValueForParsedLinkData data textType m₁).1 =
          self.answerAtPassage attributesOf data textType ∧
        (self.attributeValueForParsedLinkData data textType m₂).1 =
          self.answerAtPassage attributesOf data textType) ↔
      AList.lookup ATTRTYPE_TYPE data = some "n" ∨
        self.FindsSameVerses attributesOf data textType m₁.key ∧
          self.FindsSameVerses attributesOf data textType m₂.key := by
  rcases htype with hnote | hcross
  · exact ⟨fun _ => Or.inl hnote,
      fun _ => ⟨answer_note moves hnote textType hown₁, answer_note moves hnote textType hown₂⟩⟩
  · have hnotNote : AList.lookup ATTRTYPE_TYPE data ≠ some "n" := by
      rw [hcross]
      decide
    have hanswer : self.answerAtPassage attributesOf data textType =
        self.entriesOf textType (refList (attributesOf (SwordModule.passageOf data)) data) :=
      if_neg hnotNote
    rw [answer_cross texts hcross, answer_cross texts hcross, hanswer, entriesOf_eq_iff,
      entriesOf_eq_iff]
    exact ⟨Or.inr, fun h => h.resolve_left hnotNote⟩

/-! ## A Bible with three cross references -/

/-- The attributes of a verse with one cross reference. -/
def crossReference (references : String) : AttributeTypeList :=
  AList.insert "Footnote"
    (AList.insert "1" (AList.insert "refList" references ∅) ∅) ∅

/-- The attributes of three verses, of which the first and the last refer to the same verse. -/
def threeNotes (text : Option String) : AttributeTypeList :=
  if text = some "Genesis 1:1" ∨ text = some "Genesis 1:3" then crossReference "John 1:1"
  else if text = some "Genesis 1:2" then crossReference "Psalms 33:6"
  else ∅

/-- A Bible whose keys are their texts and whose references name one verse. -/
def notesBible : BibleModule (Option String) where
  setText _ text := text
  getText k := k.getD ""
  init := none
  setVersificationSystem k _ := k
  setIntros k _ := k
  getTestament _ := 1
  getBook _ := 1
  getVerse _ := 1
  setTestament k _ := k
  setBook k _ := k
  setChapter k _ := k
  setVerse k _ := k
  increment k := k
  parseVerseList _ ref _ _ := ref.toList
  createKey := none
  error _ := false
  renderText k := k
  stripText k := k
  entryAttributes := threeNotes
  getConfigEntry _ := none
  has _ _ := false
  globalOption _ := false

theorem notesBible_keepsTexts : (bible notesBible).KeepsTexts fun _ => True :=
  ⟨⟨fun _ => trivial, fun _ _ _ => trivial⟩, fun _ _ _ _ _ => rfl⟩

/-- A link to the cross reference of Genesis 1:1. -/
def crossLink : Dictionary String :=
  AList.insert ATTRTYPE_TYPE "x" (AList.insert ATTRTYPE_PASSAGE "Genesis+1:1"
    (AList.insert ATTRTYPE_VALUE "1" ∅))

theorem passageOf_crossLink : SwordModule.passageOf crossLink = some "Genesis 1:1" := by
  have hspaces : NSString.stringByReplacingOccurrences "Genesis+1:1" "+" " " = "Genesis 1:1" := by
    decide
  have hplain := NSString.stringByReplacingPercentEscapes_of_not_mem
    (s := "Genesis 1:1") (by decide)
  have hpassage : AList.lookup ATTRTYPE_PASSAGE crossLink = some "Genesis+1:1" := by decide
  rw [SwordModule.passageOf, hpassage, Option.bind_some, SwordModule.unescapedParameter, hspaces,
    hplain]

theorem answer_crossLink : (bible notesBible).answerAtPassage threeNotes crossLink .rendered =
    .entries [⟨some "John 1:1", "John 1:1", some ""⟩] := by
  rw [answerAtPassage, passageOf_crossLink]
  decide

/-- From the linked verse itself the answer is right, and from one that refers to the same verse. -/
theorem history_free_at_passage :
    ((bible notesBible).attributeValueForParsedLinkData crossLink .rendered
          ⟨some "Genesis 1:1", false, ∅⟩).1 =
        (bible notesBible).answerAtPassage threeNotes crossLink .rendered ∧
      ((bible notesBible).attributeValueForParsedLinkData crossLink .rendered
          ⟨some "Genesis 1:3", false, ∅⟩).1 =
        (bible notesBible).answerAtPassage threeNotes crossLink .rendered := by
  have hfinds : ∀ text : Option String, threeNotes text = threeNotes (some "Genesis 1:1") →
      (bible notesBible).FindsSameVerses threeNotes crossLink .rendered text := by
    intro text htext
    rw [FindsSameVerses, passageOf_crossLink]
    show _ = (bible notesBible).readableKeys .rendered _
    rw [← htext]
    rfl
  exact (history_free_iff (bible notesBible) notesBible_keepsTexts (fun _ _ _ => rfl)
    (Or.inr (by decide)) .rendered ⟨some "Genesis 1:1", false, ∅⟩
    ⟨some "Genesis 1:3", false, ∅⟩ trivial trivial).mpr
      (Or.inr ⟨hfinds _ rfl, hfinds _ rfl⟩)

/-- After another verse was read, the link to Genesis 1:1 is answered with the reference of that
verse. -/
theorem history_decides :
    (bible notesBible).KeepsTexts (fun _ => True) ∧
      (bible notesBible).Moves (fun _ => True) threeNotes ∧
      (bible notesBible).answerAtPassage threeNotes crossLink .rendered =
        .entries [⟨some "John 1:1", "John 1:1", some ""⟩] ∧
      ((bible notesBible).attributeValueForParsedLinkData crossLink .rendered
          ⟨some "Genesis 1:2", false, ∅⟩).1 =
        .entries [⟨some "Psalms 33:6", "Psalms 33:6", some ""⟩] := by
  refine ⟨notesBible_keepsTexts, fun _ _ _ => rfl, answer_crossLink, ?_⟩
  rw [answer_cross notesBible_keepsTexts (by decide)]
  decide

end LinkedModule

end ObjCSword
