import ObjCSword.Laws.Reading

/-!
# Which keys a reference makes a Bible read

Whatever the engine does with the verse key that is moved about, `textEntriesForReference:` with any
context reads the entries of a list of key texts, one after the other, and this list depends on the
reference and the context alone: not on where the module stood, nor on the render type, nor on what
the block makes of the entries. Each verse of the reference adds one key without context,
`2 * context + 1` with it, and none where the context is negative (`entries_of_keys`). The block
uses neither the Bible nor the setters of an entry, and the context is less than `2 ^ 30` either
way.
-/

namespace ObjCSword.SwordBible

open Sword

variable {Key β : Type}

/-- The texts that the context loop reads, and the verse key after it. -/
def contextKeys (V : VerseKey Key) : Nat → Int → Int → Key → List String × Key
  | 0, _, _, verseKey => ([], verseKey)
  | fuel + 1, lowVerse, highVerse, verseKey =>
    if lowVerse ≤ highVerse then
      let verseKey := V.setVerse verseKey lowVerse
      let (texts, last) := contextKeys V fuel (lowVerse + 1) highVerse (V.increment verseKey)
      (V.getText verseKey :: texts, last)
    else ([], verseKey)

/-- The texts that are read for one verse, and the verse key after it. -/
def verseKeys (V : VerseKey Key) (context : Int) (verseKey : Key) (verse : String) :
    List String × Key :=
  let verseKey := V.setText verseKey (some verse)
  if context ≠ 0 then
    let lowVerse := V.getVerse verseKey - context
    contextKeys V (context * 2 + 1).toNat lowVerse (lowVerse + context * 2) verseKey
  else ([V.getText verseKey], verseKey)

/-- The texts that are read for some verses. -/
def versesKeys (V : VerseKey Key) (context : Int) : List String → Key → List String
  | [], _ => []
  | verse :: verses, verseKey =>
    let (texts, verseKey) := verseKeys V context verseKey verse
    texts ++ versesKeys V context verses verseKey

/-- How many texts are read for a verse. -/
def keysPerVerse (context : Int) : Nat := if context = 0 then 1 else (context * 2 + 1).toNat

theorem length_contextKeys (V : VerseKey Key) (fuel : Nat) (lowVerse highVerse : Int)
    (verseKey : Key) (h : highVerse < lowVerse + fuel) :
    (contextKeys V fuel lowVerse highVerse verseKey).1.length = (highVerse - lowVerse + 1).toNat := by
  induction fuel generalizing lowVerse verseKey with
  | zero =>
    rw [contextKeys, List.length_nil]
    omega
  | succ fuel ih =>
    rw [contextKeys]
    split
    · rw [List.length_cons, ih _ _ (by omega)]
      omega
    · rw [List.length_nil]
      omega

theorem length_verseKeys (V : VerseKey Key) (context : Int) (verseKey : Key) (verse : String) :
    (verseKeys V context verseKey verse).1.length = keysPerVerse context := by
  rw [verseKeys, keysPerVerse]
  dsimp only
  by_cases hzero : context = 0
  · rw [if_neg (not_not_intro hzero), if_pos hzero]
    rfl
  · rw [if_pos hzero, if_neg hzero, length_contextKeys _ _ _ _ _ (by omega)]
    congr 1
    omega

theorem length_versesKeys (V : VerseKey Key) (context : Int) (verses : List String)
    (verseKey : Key) :
    (versesKeys V context verses verseKey).length = verses.length * keysPerVerse context := by
  induction verses generalizing verseKey with
  | nil => rw [versesKeys, List.length_nil, Nat.zero_mul]
  | cons verse verses ih =>
    rw [versesKeys, List.length_append, ih, length_verseKeys, List.length_cons, Nat.succ_mul,
      Nat.add_comm]

/-! ## What the loops do with the module -/

/-- From one state of the loops to another the entries at some key texts were read: they were added
and shown to the block, and the module was put on each of them. -/
structure ReadsKeys (B : BibleModule Key) (aType : RenderType)
    (entryResult : β → SwordModuleTextEntry → β) (r r' : Reading Key β) (texts : List String) : Prop
    where
  reads : Reads entryResult r r' (texts.filterMap (entryAt B aType))
  module : r'.m =
    texts.foldl (fun m text => SwordModule.stateAfter B.toSWModule (some text) m) r.m

theorem ReadsKeys.trans {B : BibleModule Key} {aType : RenderType}
    {entryResult : β → SwordModuleTextEntry → β} {r r' r'' : Reading Key β}
    {texts texts' : List String} (h : ReadsKeys B aType entryResult r r' texts)
    (h' : ReadsKeys B aType entryResult r' r'' texts') :
    ReadsKeys B aType entryResult r r'' (texts ++ texts') where
  reads := by
    rw [List.filterMap_append]
    exact h.reads.trans h'.reads
  module := by rw [h'.module, h.module, List.foldl_append]

theorem addEntry_readsKeys (B : BibleModule Key) (aType : RenderType)
    (entryResult : β → SwordModuleTextEntry → β) (r : Reading Key β) :
    ReadsKeys B aType entryResult r (addEntry B aType entryResult r) [B.getText r.verseKey] := by
  rw [addEntry, textEntryForReference_eq]
  cases hentry : entryAt B aType (B.getText r.verseKey) with
  | none =>
    refine ⟨?_, rfl⟩
    rw [List.filterMap_cons_none hentry]
    exact ⟨(List.append_nil _).symm, rfl⟩
  | some entry =>
    refine ⟨?_, rfl⟩
    rw [List.filterMap_cons_some hentry]
    exact ⟨rfl, rfl⟩

theorem contextLoop_readsKeys (B : BibleModule Key) (aType : RenderType)
    (entryResult : β → SwordModuleTextEntry → β) (fuel : Nat) (lowVerse highVerse : Int)
    (r : Reading Key β) :
    ReadsKeys B aType entryResult r (contextLoop B aType entryResult fuel lowVerse highVerse r)
        (contextKeys B.toVerseKey fuel lowVerse highVerse r.verseKey).1 ∧
      (contextLoop B aType entryResult fuel lowVerse highVerse r).verseKey =
        (contextKeys B.toVerseKey fuel lowVerse highVerse r.verseKey).2 := by
  induction fuel generalizing lowVerse r with
  | zero => exact ⟨⟨Reads.refl entryResult r, rfl⟩, rfl⟩
  | succ fuel ih =>
    rw [contextLoop, contextKeys]
    split
    · obtain ⟨hrest, hkey⟩ := ih (lowVerse + 1) (contextTurn B aType entryResult lowVerse r)
      have hturn := addEntry_readsKeys B aType entryResult
        { r with verseKey := B.setVerse r.verseKey lowVerse }
      have hverseKey : (contextTurn B aType entryResult lowVerse r).verseKey =
          B.increment (B.setVerse r.verseKey lowVerse) :=
        congrArg B.increment (addEntry_verseKey B aType entryResult
          { r with verseKey := B.setVerse r.verseKey lowVerse })
      rw [hverseKey] at hrest hkey
      -- the turn only moves the verse key besides reading
      have hread : ReadsKeys B aType entryResult r (contextTurn B aType entryResult lowVerse r)
          [B.getText (B.setVerse r.verseKey lowVerse)] :=
        ⟨⟨hturn.reads.ret, hturn.reads.block⟩, hturn.module⟩
      exact ⟨hread.trans hrest, hkey⟩
    · exact ⟨⟨Reads.refl entryResult r, rfl⟩, rfl⟩

theorem readVerse_readsKeys (B : BibleModule Key) (context : Int) (aType : RenderType)
    (entryResult : β → SwordModuleTextEntry → β) (r : Reading Key β) (verse : String) :
    ReadsKeys B aType entryResult r (readVerse B context aType entryResult r (some verse))
        (verseKeys B.toVerseKey context r.verseKey verse).1 ∧
      (readVerse B context aType entryResult r (some verse)).verseKey =
        (verseKeys B.toVerseKey context r.verseKey verse).2 := by
  let r₀ : Reading Key β := { r with verseKey := B.setText r.verseKey (some verse) }
  rw [verseKeys]
  dsimp only
  by_cases hzero : context = 0
  · have hread : readVerse B context aType entryResult r (some verse) =
        addEntry B aType entryResult r₀ := by
      rw [readVerse]
      exact if_neg (not_not_intro hzero)
    have hentry := addEntry_readsKeys B aType entryResult r₀
    rw [hread, if_neg (not_not_intro hzero)]
    exact ⟨⟨⟨hentry.reads.ret, hentry.reads.block⟩, hentry.module⟩,
      addEntry_verseKey B aType entryResult r₀⟩
  · have hread : readVerse B context aType entryResult r (some verse) =
        contextLoop B aType entryResult (context * 2 + 1).toNat
          (B.getVerse r₀.verseKey - context) (B.getVerse r₀.verseKey - context + context * 2) r₀ := by
      rw [readVerse]
      exact if_pos hzero
    obtain ⟨hloop, hkey⟩ := contextLoop_readsKeys B aType entryResult (context * 2 + 1).toNat
      (B.getVerse r₀.verseKey - context) (B.getVerse r₀.verseKey - context + context * 2) r₀
    rw [hread, if_pos hzero]
    exact ⟨⟨⟨hloop.reads.ret, hloop.reads.block⟩, hloop.module⟩, hkey⟩

theorem foldl_readsKeys (B : BibleModule Key) (context : Int) (aType : RenderType)
    (entryResult : β → SwordModuleTextEntry → β) (verses : List String) (r : Reading Key β) :
    ReadsKeys B aType entryResult r
      (verses.foldl (fun r verse => readVerse B context aType entryResult r (some verse)) r)
      (versesKeys B.toVerseKey context verses r.verseKey) := by
  induction verses generalizing r with
  | nil => exact ⟨Reads.refl entryResult r, rfl⟩
  | cons verse verses ih =>
    obtain ⟨hverse, hkey⟩ := readVerse_readsKeys B context aType entryResult r verse
    have hrest := ih (readVerse B context aType entryResult r (some verse))
    rw [hkey] at hrest
    exact hverse.trans hrest

/-- The key texts that a reference makes a Bible read. -/
def keysRead (B : BibleModule Key) (ref : Option String) (context : Int) : List String :=
  let first := some (SwordListKey.keyText
    (SwordListKey.initWithRef B.toVerseKey ref false (some (versification B))).top.current)
  versesKeys B.toVerseKey context (versesOf B ref)
    (B.setText (B.setText (B.setVersificationSystem B.init (versification B)) first) first)

/-- What the method returns, what its block has seen and where it leaves the module. -/
theorem textEntriesForReferenceInContext_of_keys (B : BibleModule Key) (ref : Option String)
    (context : Int) (aType : RenderType) (entryResult : β → SwordModuleTextEntry → β) (block : β)
    (m : ModuleState Key) :
    textEntriesForReferenceInContext B ref context aType entryResult block m =
      ((keysRead B ref context).filterMap (entryAt B aType),
        ((keysRead B ref context).filterMap (entryAt B aType)).foldl entryResult block,
        (keysRead B ref context).foldl
          (fun m text => SwordModule.stateAfter B.toSWModule (some text) m) m) := by
  have hall := foldl_readsKeys B context aType entryResult (versesOf B ref) (startOf B ref block m)
  rw [textEntriesForReferenceInContext_eq]
  exact Prod.ext hall.reads.ret (Prod.ext hall.reads.block hall.module)

end ObjCSword.SwordBible
