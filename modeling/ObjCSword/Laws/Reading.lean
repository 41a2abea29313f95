import ObjCSword.Lib.Lists
import ObjCSword.ModuleAccess

/-!
# What reading a reference returns

The reading methods move the module and its attribute map as they go, but what they return does not
come from there: an entry is read after the module was put on a new key made of the entry's own key
text, and its heading from the attributes which that same read left behind. So an entry is a
function of its key text alone, `entryAt`, and every method's answer is said through it:

- a base class module reads the reference itself (`SwordModule.textEntriesForReference_eq`);
- a Bible reads the verses the reference parses to, in their order
  (`SwordBible.textEntriesForReferenceInContext_zero`), and the block sees what is returned.

The loops over a Bible's verses are described by `Reads`: which entries a piece of them adds.
-/

namespace ObjCSword

open Sword

variable {Key β : Type}

/-! ## One entry -/

namespace SwordModule

/-- The key the module is put on to read a reference. -/
def keyOf (M : SWModule Key) (ref : Option String) : Key := M.setText M.createKey ref

/-- The text of a render type at a key. -/
def textAt (M : SWModule Key) (aType : RenderType) (key : Key) : Option String :=
  if aType = .rendered then M.renderText key else M.stripText key

/-- The entry of a reference. -/
def entryAt (M : SWModule Key) (aType : RenderType) (ref : Option String) :
    Option SwordModuleTextEntry :=
  if M.error (keyOf M ref) then none
  else (textAt M aType (keyOf M ref)).map fun txt => { key := ref, text := txt }

theorem entryAt_of_error {M : SWModule Key} {ref : Option String}
    (h : M.error (keyOf M ref) = true) (aType : RenderType) : entryAt M aType ref = none := by
  rw [entryAt, if_pos h]

theorem entryAt_of_readable {M : SWModule Key} {ref : Option String}
    (h : M.error (keyOf M ref) = false) (aType : RenderType) :
    entryAt M aType ref =
      (textAt M aType (keyOf M ref)).map fun txt => { key := ref, text := txt } := by
  rw [entryAt, h]
  rfl

/-- The state a read leaves behind: nothing of the state before it but the attributes of the last
key that could be read. -/
def stateAfter (M : SWModule Key) (ref : Option String) (m : ModuleState Key) : ModuleState Key :=
  { key := keyOf M ref
    error := false
    entryAttributes :=
      if M.error (keyOf M ref) then m.entryAttributes else M.entryAttributes (keyOf M ref) }

theorem entryAttributes_stateAfter {M : SWModule Key} {ref : Option String}
    (h : M.error (keyOf M ref) = false) (m : ModuleState Key) :
    (stateAfter M ref m).entryAttributes = M.entryAttributes (keyOf M ref) := by
  simp only [stateAfter, h, Bool.false_eq_true, if_false]

theorem textEntryForReference_eq (M : SWModule Key) (ref : Option String) (aType : RenderType)
    (m : ModuleState Key) :
    textEntryForReference M ref aType m = (entryAt M aType ref, stateAfter M ref m) := by
  cases herr : M.error (keyOf M ref) with
  | true =>
    have hkey : M.error (M.setText M.createKey ref) = true := herr
    simp only [textEntryForReference, setKeyString, error, hkey, entryAt, stateAfter, keyOf,
      if_true]
  | false =>
    have hkey : M.error (M.setText M.createKey ref) = false := herr
    simp only [textEntryForReference, setKeyString, error, hkey, entryAt, stateAfter, keyOf,
      Bool.false_eq_true, if_false, textAt, renderedText, strippedText]
    cases aType with
    | rendered =>
      simp only [if_true]
      cases M.renderText (M.setText M.createKey ref) with
      | none => rfl
      | some txt => rfl
    | stripped =>
      simp only [reduceCtorEq, if_false]
      cases M.stripText (M.setText M.createKey ref) with
      | none => rfl
      | some txt => rfl

theorem textEntriesForReference_eq (M : SWModule Key) (ref : Option String) (aType : RenderType)
    (entryResult : β → SwordModuleTextEntry → β) (block : β) (m : ModuleState Key) :
    (textEntriesForReference M ref aType entryResult block m).1 =
      (entryAt M aType ref).map fun entry => [entry] := by
  rw [textEntriesForReference, textEntryForReference_eq]
  cases entryAt M aType ref with
  | none => rfl
  | some entry => rfl

/-- An entry holds the reference it was read for and its text, and no heading, which only a Bible
adds. -/
theorem entryAt_eq_some_iff {M : SWModule Key} {aType : RenderType} {ref : Option String}
    {entry : SwordModuleTextEntry} :
    entryAt M aType ref = some entry ↔ M.error (keyOf M ref) = false ∧
      ∃ txt, textAt M aType (keyOf M ref) = some txt ∧ entry = { key := ref, text := txt } := by
  cases hread : M.error (keyOf M ref) with
  | true =>
    rw [entryAt_of_error hread]
    exact iff_of_false nofun fun h => absurd h.1 nofun
  | false =>
    rw [entryAt_of_readable hread, Option.map_eq_some_iff]
    constructor
    · rintro ⟨txt, htxt, rfl⟩
      exact ⟨rfl, txt, htxt, rfl⟩
    · rintro ⟨-, txt, htxt, rfl⟩
      exact ⟨txt, htxt, rfl⟩

/-- The key of an entry is the reference it was read for. -/
theorem key_of_entryAt {M : SWModule Key} {aType : RenderType} {ref : Option String}
    {entry : SwordModuleTextEntry} (h : entryAt M aType ref = some entry) : entry.key = ref := by
  obtain ⟨-, txt, -, rfl⟩ := entryAt_eq_some_iff.mp h
  rfl

end SwordModule

namespace SwordBible

/-- The heading a Bible adds to the entry of a reference, if it has one. -/
def headingAt (B : BibleModule Key) (ref : String) : Option String :=
  if B.globalOption SW_OPTION_HEADINGS
      && SwordModule.hasFeature B.toSWModule SWMOD_FEATURE_HEADINGS then
    let preverseHeading := SwordModule.entryAttributeValuePreverse
      (SwordModule.stateAfter B.toSWModule (some ref) ⟨B.createKey, false, ∅⟩)
    if 0 < preverseHeading.length then some preverseHeading else none
  else none

/-- A heading that is there is not empty. -/
theorem headingAt_ne_empty {B : BibleModule Key} {ref heading : String}
    (h : headingAt B ref = some heading) : heading ≠ "" := by
  unfold headingAt at h
  dsimp only at h
  split at h
  · split at h
    · next hlength =>
      cases h
      rintro hempty
      rw [hempty] at hlength
      exact absurd hlength (by decide)
    · cases h
  · cases h

/-- An entry with the heading of a reference; where that has none, with the empty heading. -/
def withHeadingAt (B : BibleModule Key) (ref : String) (entry : SwordModuleTextEntry) :
    SwordModuleTextEntry :=
  { entry with preVerseHeading := some ((headingAt B ref).getD "") }

/-- The entry of a verse, given by its key text. -/
def entryAt (B : BibleModule Key) (aType : RenderType) (ref : String) :
    Option SwordModuleTextEntry :=
  (SwordModule.entryAt B.toSWModule aType (some ref)).map (withHeadingAt B ref)

/-- The heading that is added is the one of the reference whose attributes are there. -/
theorem addPreVerseHeading_eq {B : BibleModule Key} {m : ModuleState Key} {ref : String}
    (hread : B.error (SwordModule.keyOf B.toSWModule (some ref)) = false)
    (hattr : m.entryAttributes = B.entryAttributes (SwordModule.keyOf B.toSWModule (some ref)))
    (entry : SwordModuleTextEntry) : addPreVerseHeading B m entry = withHeadingAt B ref entry := by
  have hheading : SwordModule.entryAttributeValuePreverse m =
      SwordModule.entryAttributeValuePreverse
        (SwordModule.stateAfter B.toSWModule (some ref) ⟨B.createKey, false, ∅⟩) := by
    simp only [SwordModule.entryAttributeValuePreverse, SwordModule.stateAfter, hread, hattr,
      Bool.false_eq_true, if_false]
  simp only [addPreVerseHeading, withHeadingAt, headingAt, hheading]
  split
  · split
    · rfl
    · rfl
  · rfl

/-- The method in one go is the superclass's, and then its heading. -/
theorem textEntryForReference_eq_map (B : BibleModule Key) (ref : String) (aType : RenderType)
    (m : ModuleState Key) :
    textEntryForReference B ref aType m =
      let out := SwordModule.textEntryForReference B.toSWModule (some ref) aType m
      (out.1.map (addPreVerseHeading B out.2), out.2) := by
  unfold textEntryForReference
  cases SwordModule.textEntryForReference B.toSWModule (some ref) aType m with
  | mk superEntry m =>
    cases superEntry with
    | none => rfl
    | some superEntry =>
      simp only [Option.map_some, addPreVerseHeading]
      split
      · split
        · rfl
        · rfl
      · rfl

theorem textEntryForReference_eq (B : BibleModule Key) (ref : String) (aType : RenderType)
    (m : ModuleState Key) :
    textEntryForReference B ref aType m =
      (entryAt B aType ref, SwordModule.stateAfter B.toSWModule (some ref) m) := by
  rw [textEntryForReference_eq_map, SwordModule.textEntryForReference_eq, entryAt]
  cases hentry : SwordModule.entryAt B.toSWModule aType (some ref) with
  | none => rfl
  | some entry =>
    -- a verse that could be read left its own attributes, whatever stood there before
    obtain ⟨hread, -⟩ := SwordModule.entryAt_eq_some_iff.mp hentry
    have hattr := SwordModule.entryAttributes_stateAfter hread m
    exact congrArg (fun entry => (some entry, SwordModule.stateAfter B.toSWModule (some ref) m))
      (addPreVerseHeading_eq hread hattr entry)

/-- The key of a verse's entry is the text it was read for. -/
theorem key_of_entryAt {B : BibleModule Key} {aType : RenderType} {ref : String}
    {entry : SwordModuleTextEntry} (h : entryAt B aType ref = some entry) :
    entry.key = some ref := by
  obtain ⟨base, hbase, rfl⟩ := Option.map_eq_some_iff.mp h
  show base.key = some ref
  exact SwordModule.key_of_entryAt hbase

/-! ## The loops -/

/-- From one state of the loops to another the entries `es` were added, and the block saw them. -/
structure Reads (entryResult : β → SwordModuleTextEntry → β) (r r' : Reading Key β)
    (es : List SwordModuleTextEntry) : Prop where
  ret : r'.ret = r.ret ++ es
  block : r'.block = es.foldl entryResult r.block

theorem Reads.refl (entryResult : β → SwordModuleTextEntry → β) (r : Reading Key β) :
    Reads entryResult r r [] :=
  ⟨(List.append_nil _).symm, rfl⟩

theorem Reads.trans {entryResult : β → SwordModuleTextEntry → β} {r r' r'' : Reading Key β}
    {es es' : List SwordModuleTextEntry} (h : Reads entryResult r r' es)
    (h' : Reads entryResult r' r'' es') : Reads entryResult r r'' (es ++ es') :=
  ⟨by rw [h'.ret, h.ret, List.append_assoc], by rw [h'.block, h.block, List.foldl_append]⟩

theorem addEntry_reads (B : BibleModule Key) (aType : RenderType)
    (entryResult : β → SwordModuleTextEntry → β) (r : Reading Key β) :
    Reads entryResult r (addEntry B aType entryResult r)
      (entryAt B aType (B.getText r.verseKey)).toList := by
  rw [addEntry, textEntryForReference_eq]
  cases entryAt B aType (B.getText r.verseKey) with
  | none => exact ⟨(List.append_nil _).symm, rfl⟩
  | some entry => exact ⟨rfl, rfl⟩

theorem addEntry_verseKey (B : BibleModule Key) (aType : RenderType)
    (entryResult : β → SwordModuleTextEntry → β) (r : Reading Key β) :
    (addEntry B aType entryResult r).verseKey = r.verseKey := by
  rw [addEntry, textEntryForReference_eq]
  cases entryAt B aType (B.getText r.verseKey) with
  | none => rfl
  | some entry => rfl

/-- The verse keys of the module's own versification, as a kind of key: a key that is given the
versification is one, and setting its text keeps it one. -/
structure OwnKeys (B : BibleModule Key) (own : Key → Prop) : Prop where
  own_setVersificationSystem : ∀ k, own (B.setVersificationSystem k (versification B))
  own_setText : ∀ k text, own k → own (B.setText k text)

/-- The verses a reference parses to in the module's own versification, by their texts. -/
def versesOf (B : BibleModule Key) (ref : Option String) : List String :=
  (SwordListKey.initWithRef B.toVerseKey ref false (some (versification B))).elems

/-- What reading a list of verses adds, when reading each of them from a key of some kind adds what
`es` says and leaves such a key. -/
theorem foldl_reads {ι : Type} {B : BibleModule Key} {context : Int} {aType : RenderType}
    {entryResult : β → SwordModuleTextEntry → β} (Good : Key → Prop) (text : ι → String)
    {es : ι → List SwordModuleTextEntry} {verses : List ι}
    (step : ∀ v ∈ verses, ∀ r : Reading Key β, Good r.verseKey →
      Reads entryResult r (readVerse B context aType entryResult r (some (text v))) (es v) ∧
        Good (readVerse B context aType entryResult r (some (text v))).verseKey)
    (r : Reading Key β) (good : Good r.verseKey) :
    Reads entryResult r
      ((verses.map text).foldl
        (fun r verse => readVerse B context aType entryResult r (some verse)) r)
      (verses.flatMap es) := by
  induction verses generalizing r with
  | nil => exact Reads.refl entryResult r
  | cons v verses ih =>
    obtain ⟨hreads, hgood⟩ := step v List.mem_cons_self r good
    have hrest := ih (fun w hw => step w (List.mem_cons_of_mem _ hw)) _ hgood
    rw [List.map_cons, List.foldl_cons, List.flatMap_cons]
    exact hreads.trans hrest

/-- The state the loops start from: the verse key is a new one of the module's versification, put
on the first verse of the list. -/
def startOf (B : BibleModule Key) (ref : Option String) (block : β) (m : ModuleState Key) :
    Reading Key β :=
  let first := some (SwordListKey.keyText
    (SwordListKey.initWithRef B.toVerseKey ref false (some (versification B))).top.current)
  { m := m
    verseKey :=
      B.setText (B.setText (B.setVersificationSystem B.init (versification B)) first) first
    ret := []
    block := block }

theorem own_startOf {B : BibleModule Key} {own : Key → Prop} (keys : OwnKeys B own)
    (ref : Option String) (block : β) (m : ModuleState Key) :
    own (startOf B ref block m).verseKey :=
  keys.own_setText _ _ (keys.own_setText _ _ (keys.own_setVersificationSystem _))

/-- **The method is the fold of its loop body over the verses.** -/
theorem textEntriesForReferenceInContext_eq (B : BibleModule Key) (ref : Option String)
    (context : Int) (aType : RenderType) (entryResult : β → SwordModuleTextEntry → β) (block : β)
    (m : ModuleState Key) :
    textEntriesForReferenceInContext B ref context aType entryResult block m =
      let r := (versesOf B ref).foldl
        (fun r verse => readVerse B context aType entryResult r (some verse))
        (startOf B ref block m)
      (r.ret, r.block, r.m) := by
  have hloop := Lib.Cursor.forEach_top (readVerse B context aType entryResult)
    (SwordListKey.initWithRef B.toVerseKey ref false (some (versification B))) _
    (startOf B ref block m) (Nat.lt_succ_self _)
  exact congrArg (fun r : Reading Key β => (r.ret, r.block, r.m)) hloop

/-- **Without context, a Bible returns the entries of the verses that can be read**, and the block
has seen just these. A key of the versification that is set to one of the verses must answer with
its text. -/
theorem textEntriesForReferenceInContext_zero {B : BibleModule Key} {own : Key → Prop}
    (keys : OwnKeys B own) {ref : Option String}
    (getText_setText : ∀ k, own k → ∀ verse ∈ versesOf B ref,
      B.getText (B.setText k (some verse)) = verse)
    (aType : RenderType) (entryResult : β → SwordModuleTextEntry → β)
    (block : β) (m : ModuleState Key) :
    let out := textEntriesForReferenceInContext B ref 0 aType entryResult block m
    out.1 = (versesOf B ref).filterMap (entryAt B aType) ∧
      out.2.1 = ((versesOf B ref).filterMap (entryAt B aType)).foldl entryResult block := by
  have step : ∀ verse ∈ versesOf B ref, ∀ r : Reading Key β, own r.verseKey →
      Reads entryResult r (readVerse B 0 aType entryResult r (some verse))
          (entryAt B aType verse).toList ∧
        own (readVerse B 0 aType entryResult r (some verse)).verseKey := by
    intro verse hverse r hown
    have hread := addEntry_reads B aType entryResult
      { r with verseKey := B.setText r.verseKey (some verse) }
    have hkey := addEntry_verseKey B aType entryResult
      { r with verseKey := B.setText r.verseKey (some verse) }
    dsimp only at hread hkey
    rw [getText_setText _ hown verse hverse] at hread
    refine ⟨⟨hread.ret, hread.block⟩, ?_⟩
    show own (addEntry B aType entryResult
      { r with verseKey := B.setText r.verseKey (some verse) }).verseKey
    rw [hkey]
    exact keys.own_setText _ _ hown
  have hall := foldl_reads own (fun verse => verse) step (startOf B ref block m)
    (own_startOf keys ref block m)
  rw [List.map_id'] at hall
  dsimp only
  rw [textEntriesForReferenceInContext_eq, Lib.Lists.filterMap_eq_flatMap_toList]
  exact ⟨hall.ret, hall.block⟩

end SwordBible

end ObjCSword
