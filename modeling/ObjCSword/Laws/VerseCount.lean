import ObjCSword.Laws.Reading

/-!
# Counting the verses of a reference

`numberOfVerseKeysForReference:` and `textEntriesForReference:` each parse the reference themselves,
and not alike: the count leaves its verse key in the default versification, the KJV, while reading
sets the module's own, and the two give different default positions. `numberOfVerseKeys_iff` says
what that costs: the count is the number of entries exactly when the two parses name equally many
verses.
-/

namespace ObjCSword.SwordBible

open Sword

variable {Key β : Type}

/-- The engine's parser: `verses` answers for a versification, a default position and a reference,
and a new verse key is one of the KJV. -/
structure ParserLaws (B : BibleModule Key)
    (verses : String → String → Option String → List String) : Prop where
  init : ∀ ref position, B.parseVerseList B.init ref position true = verses "KJV" position ref
  setVersificationSystem : ∀ scheme ref position,
    B.parseVerseList (B.setVersificationSystem (B.setIntros B.init false) scheme) ref position
      true = verses scheme position ref

theorem versesOf_eq {B : BibleModule Key} {verses : String → String → Option String → List String}
    (parser : ParserLaws B verses) (ref : Option String) :
    versesOf B ref = verses (versification B) "gen" ref :=
  parser.setVersificationSystem (versification B) ref "gen"

/-- The loop of the count counts the verses of its own parse. -/
theorem numberOfVerseKeysForReference_eq {B : BibleModule Key}
    {verses : String → String → Option String → List String} (parser : ParserLaws B verses)
    {ref : String} (hne : 0 < ref.length) :
    numberOfVerseKeysForReference B (some ref) = (verses "KJV" "Gen1" (some ref)).length := by
  have hcount : ∀ (l : List String) (n : Nat),
      l.foldl (fun ret _ => ret + 1) n = n + l.length := by
    intro l
    induction l with
    | nil => exact fun n => rfl
    | cons a l ih =>
      intro n
      rw [List.foldl_cons, ih, List.length_cons]
      omega
  simp only [numberOfVerseKeysForReference, if_pos hne]
  rw [Lib.Cursor.forEach_top _ _ _ _ (Nat.lt_succ_self _), hcount, Nat.zero_add, parser.init]
  rfl

/-- Where every verse of the reference can be read, reading returns one entry for each. -/
theorem length_textEntriesForReference {B : BibleModule Key} {own : Key → Prop}
    (keys : OwnKeys B own) {ref : Option String}
    (getText_setText : ∀ k, own k → ∀ verse ∈ versesOf B ref,
      B.getText (B.setText k (some verse)) = verse)
    {aType : RenderType} (readable : ∀ verse ∈ versesOf B ref, (entryAt B aType verse).isSome)
    (entryResult : β → SwordModuleTextEntry → β) (block : β) (m : ModuleState Key) :
    (textEntriesForReferenceInContext B ref 0 aType entryResult block m).1.length =
      (versesOf B ref).length := by
  have hread :=
    (textEntriesForReferenceInContext_zero keys getText_setText aType entryResult block m).1
  rw [hread, List.filterMap_length_eq_length]
  exact readable

/-- **The count is the number of entries exactly when the reference names equally many verses for
both parses**: in the KJV with the position `Gen1`, and in the module's own versification with the
position `gen`. -/
theorem numberOfVerseKeys_iff {B : BibleModule Key}
    {verses : String → String → Option String → List String} (parser : ParserLaws B verses)
    {own : Key → Prop} (keys : OwnKeys B own) {ref : String} (hne : 0 < ref.length)
    (getText_setText : ∀ k, own k → ∀ verse ∈ verses (versification B) "gen" (some ref),
      B.getText (B.setText k (some verse)) = verse)
    {aType : RenderType}
    (readable : ∀ verse ∈ verses (versification B) "gen" (some ref),
      (entryAt B aType verse).isSome)
    (entryResult : β → SwordModuleTextEntry → β) (block : β) (m : ModuleState Key) :
    numberOfVerseKeysForReference B (some ref) =
        (textEntriesForReferenceInContext B (some ref) 0 aType entryResult block m).1.length ↔
      (verses "KJV" "Gen1" (some ref)).length =
        (verses (versification B) "gen" (some ref)).length := by
  have hown := versesOf_eq parser (some ref)
  rw [← hown] at getText_setText readable
  rw [numberOfVerseKeysForReference_eq parser hne,
    length_textEntriesForReference keys getText_setText readable, hown]

/-! ## A psalm with its title -/

def psalm3 : List String :=
  ["Psalms 3:1", "Psalms 3:2", "Psalms 3:3", "Psalms 3:4", "Psalms 3:5", "Psalms 3:6",
    "Psalms 3:7", "Psalms 3:8", "Psalms 3:9"]

/-- A parser that knows one psalm. The KJV does not count its title, the German versification
does. -/
def psalm3Verses (scheme _position : String) (ref : Option String) : List String :=
  if ref = some "Ps 3" then if scheme = "German" then psalm3 else psalm3.take 8 else ref.toList

/-- A Bible of a versification, whose keys are their versification and their text. -/
def psalm3Bible (scheme : String) : BibleModule (String × String) where
  setText k text := (k.1, text.getD k.2)
  getText k := k.2
  init := ("KJV", "Genesis 1:1")
  setVersificationSystem k scheme := (scheme, k.2)
  setIntros k _ := k
  getTestament _ := 1
  getBook _ := 1
  getVerse _ := 1
  setTestament k _ := k
  setBook k _ := k
  setChapter k _ := k
  setVerse k _ := k
  increment k := k
  parseVerseList k ref position _ := psalm3Verses k.1 position ref
  createKey := (scheme, "Genesis 1:1")
  error _ := false
  renderText k := some k.2
  stripText k := some k.2
  entryAttributes _ := ∅
  getConfigEntry key := if key = SWMOD_CONFENTRY_VERSIFICATION then some scheme else none
  has _ _ := false
  globalOption _ := false

theorem psalm3Bible_laws (scheme : String) : ParserLaws (psalm3Bible scheme) psalm3Verses where
  init _ _ := rfl
  setVersificationSystem _ _ _ := rfl

theorem psalm3Bible_ownKeys (scheme : String) :
    OwnKeys (psalm3Bible scheme) fun k => k.1 = versification (psalm3Bible scheme) where
  own_setVersificationSystem _ := rfl
  own_setText _ _ hown := hown

/-- The psalm in a Bible of the KJV. -/
theorem numberOfVerseKeys_iff_kjv :
    numberOfVerseKeysForReference (psalm3Bible "KJV") (some "Ps 3") =
      (textEntriesForReferenceInContext (psalm3Bible "KJV") (some "Ps 3") 0 .rendered
        (fun _ _ => ()) () ⟨("KJV", ""), false, ∅⟩).1.length :=
  (numberOfVerseKeys_iff (psalm3Bible_laws "KJV") (psalm3Bible_ownKeys "KJV") (by decide)
    (fun _ _ _ _ => rfl) (by decide) (fun _ _ => ()) () ⟨("KJV", ""), false, ∅⟩).mpr (by decide)

/-- A German Bible returns nine entries for the psalm and counts eight. -/
theorem numberOfVerseKeys_german :
    ParserLaws (psalm3Bible "German") psalm3Verses ∧
      (∀ verse ∈ psalm3Verses "German" "gen" (some "Ps 3"),
        (entryAt (psalm3Bible "German") .rendered verse).isSome) ∧
      numberOfVerseKeysForReference (psalm3Bible "German") (some "Ps 3") = 8 ∧
      (textEntriesForReferenceInContext (psalm3Bible "German") (some "Ps 3") 0 .rendered
        (fun _ _ => ()) () ⟨("German", ""), false, ∅⟩).1.length = 9 :=
  ⟨psalm3Bible_laws "German", by decide, by decide, by decide⟩

end ObjCSword.SwordBible
