import ObjCSword.Laws.ReadKeys
import ObjCSword.Lib.FairTurns
import ObjCSword.SharedBible

/-!
# Several callers of a Bible

The lock makes the calls on a Bible come one after the other: whatever callers do and however their
turns fall, each call works as if it were alone, in the order in which the calls gave the lock back
(`calls_serial`). What it finds then are the entries that the calls before it have written, and
nothing else: where those calls left the module is of no account to a reader (`reads_of_writes`).
-/

namespace ObjCSword.SwordBible

open Sword NSString Lib.Monitor

variable {Key Pos : Type}

/-! ## A body in pieces is the method -/

/-- A program does what a method does, and leaves the entries as they are. -/
def RunsAs {α : Type} (W : WritableBible Key Pos) (p : Program (BibleState Key Pos) α)
    (method : BibleModule Key → ModuleState Key → α × ModuleState Key) : Prop :=
  ∀ s, p.run s = reading W method s

section RunsAs

variable {α γ : Type} {W : WritableBible Key Pos}
  {method : BibleModule Key → ModuleState Key → α × ModuleState Key}

theorem runsAs_pure (a : α) : RunsAs W (pure a) fun _ m => (a, m) := fun _ => rfl

theorem runsAs_onModule (work : BibleModule Key → ModuleState Key → α × ModuleState Key) :
    RunsAs W (onModule W work) work := fun _ => rfl

/-- One program after another is one method after the other. -/
theorem RunsAs.bind {p : Program (BibleState Key Pos) α} {q : α → Program (BibleState Key Pos) γ}
    {next : α → BibleModule Key → ModuleState Key → γ × ModuleState Key} (hp : RunsAs W p method)
    (hq : ∀ a, RunsAs W (q a) (next a)) :
    RunsAs W (p >>= q) fun B m => next (method B m).1 B (method B m).2 := by
  intro s
  rw [Program.run_bind, hp s]
  exact hq _ _

theorem RunsAs.congr {p : Program (BibleState Key Pos) α}
    {method' : BibleModule Key → ModuleState Key → α × ModuleState Key} (hp : RunsAs W p method)
    (h : ∀ entries m, method (W.withEntries entries) m = method' (W.withEntries entries) m) :
    RunsAs W p method' := by
  intro s
  rw [hp s, reading, reading, h]

end RunsAs

variable (W : WritableBible Key Pos)

theorem entryProgram_runsAs (aKeyString : Option String) (aType : RenderType) :
    RunsAs W (entryProgram W aKeyString aType) fun B =>
      SwordModule.textEntryForReference B.toSWModule aKeyString aType := by
  have htext : ∀ error : Bool, RunsAs W
      (if error then pure none
      else do
        let txt ← onModule W fun B m =>
          if aType = .rendered then SwordModule.renderedText B.toSWModule m
          else SwordModule.strippedText B.toSWModule m
        return txt.map fun txt => SwordModuleTextEntry.mk aKeyString txt none)
      fun B m =>
        if error then (none, m)
        else
          let read := if aType = .rendered then SwordModule.renderedText B.toSWModule m
            else SwordModule.strippedText B.toSWModule m
          (read.1.map fun txt => SwordModuleTextEntry.mk aKeyString txt none, read.2) := by
    intro error
    cases error with
    | true => exact runsAs_pure none
    | false => exact (runsAs_onModule _).bind fun txt => runsAs_pure _
  refine ((runsAs_onModule _).bind fun _ => (runsAs_onModule _).bind htext).congr
    fun entries m => ?_
  generalize W.withEntries entries = B
  rw [SwordModule.textEntryForReference]
  dsimp only
  generalize (SwordModule.error (SwordModule.setKeyString B.toSWModule aKeyString m)).2 = m
  split
  · rfl
  · split
    · cases (SwordModule.renderedText B.toSWModule m).1 with
      | none => rfl
      | some txt => rfl
    · cases (SwordModule.strippedText B.toSWModule m).1 with
      | none => rfl
      | some txt => rfl

theorem verseProgram_runsAs (aReference : String) (aType : RenderType) :
    RunsAs W (verseProgram W aReference aType) fun B =>
      textEntryForReference B aReference aType := by
  have hheading : ∀ superEntry, RunsAs W (headingProgram W superEntry) fun B m =>
      (superEntry.map (addPreVerseHeading B m), m) := by
    intro superEntry
    cases superEntry with
    | none => exact runsAs_pure none
    | some ret => exact (runsAs_onModule _).bind fun ret => runsAs_pure (some ret)
  exact ((entryProgram_runsAs W (some aReference) aType).bind hheading).congr fun entries m =>
    (textEntryForReference_eq_map _ _ _ _).symm

/-- A state of the loops, for a block that does nothing. -/
def readingOf (m : ModuleState Key) (verseKey : Key) (ret : List SwordModuleTextEntry) :
    Reading Key Unit :=
  { m := m, verseKey := verseKey, ret := ret, block := () }

/-- Reading leaves the verse key where it is. -/
theorem readingOf_addEntry (B : BibleModule Key) (aType : RenderType) (m : ModuleState Key)
    (verseKey : Key) (ret : List SwordModuleTextEntry) :
    readingOf (addEntry B aType (fun _ _ => ()) (readingOf m verseKey ret)).m verseKey
      (addEntry B aType (fun _ _ => ()) (readingOf m verseKey ret)).ret =
        addEntry B aType (fun _ _ => ()) (readingOf m verseKey ret) :=
  congrArg (fun key => readingOf _ key _)
    (addEntry_verseKey B aType (fun _ _ => ()) (readingOf m verseKey ret)).symm

theorem addEntryProgram_runsAs (aType : RenderType) (verseKey : Key)
    (ret : List SwordModuleTextEntry) :
    RunsAs W (addEntryProgram W aType verseKey ret) fun B m =>
      let r := addEntry B aType (fun _ _ => ()) (readingOf m verseKey ret)
      (r.ret, r.m) := by
  refine ((verseProgram_runsAs W (W.getText verseKey) aType).bind
    fun entry => runsAs_pure _).congr fun entries m => ?_
  rw [addEntry]
  dsimp only [readingOf]
  cases hentry : textEntryForReference (W.withEntries entries) (W.getText verseKey) aType m with
  | mk entry m' =>
    have hentry' : textEntryForReference (W.withEntries entries)
      ((W.withEntries entries).toVerseKey.toSWKey.getText verseKey) aType m = (entry, m') := hentry
    rw [hentry']
    cases entry with
    | none => rfl
    | some entry => rfl

theorem contextProgram_runsAs (aType : RenderType) (fuel : Nat) (lowVerse highVerse : Int)
    (verseKey : Key) (ret : List SwordModuleTextEntry) :
    RunsAs W (contextProgram W aType fuel lowVerse highVerse verseKey ret) fun B m =>
      let r := contextLoop B aType (fun _ _ => ()) fuel lowVerse highVerse
        (readingOf m verseKey ret)
      ((r.verseKey, r.ret), r.m) := by
  induction fuel generalizing lowVerse verseKey ret with
  | zero => exact runsAs_pure _
  | succ fuel ih =>
    rw [contextProgram]
    by_cases hle : lowVerse ≤ highVerse
    · rw [if_pos hle]
      refine ((addEntryProgram_runsAs W aType (W.setVerse verseKey lowVerse) ret).bind
        fun ret => ih (lowVerse + 1) (W.increment (W.setVerse verseKey lowVerse)) ret).congr
          fun entries m => ?_
      rw [contextLoop, if_pos hle]
      -- the turn reads at the verse key, and moves it after that
      have hturn : contextTurn (W.withEntries entries) aType (fun _ _ => ()) lowVerse
          (readingOf m verseKey ret) =
          { addEntry (W.withEntries entries) aType (fun _ _ => ())
              (readingOf m (W.setVerse verseKey lowVerse) ret) with
            verseKey := W.increment (W.setVerse verseKey lowVerse) } :=
        congrArg (fun key => readingOf _ (W.increment key) _) (addEntry_verseKey _ _ _ _)
      rw [hturn]
      rfl
    · rw [if_neg hle]
      refine (runsAs_pure _).congr fun entries m => ?_
      rw [contextLoop, if_neg hle]
      rfl

theorem versesProgram_runsAs (context : Int) (aType : RenderType) (verses : List String)
    (verseKey : Key) (ret : List SwordModuleTextEntry) :
    RunsAs W (versesProgram W context aType verses verseKey ret) fun B m =>
      let r := verses.foldl (fun r verse => readVerse B context aType (fun _ _ => ()) r (some verse))
        (readingOf m verseKey ret)
      (r.ret, r.m) := by
  induction verses generalizing verseKey ret with
  | nil => exact runsAs_pure _
  | cons verse verses ih =>
    rw [versesProgram]
    by_cases hzero : context = 0
    · rw [if_neg (not_not_intro hzero)]
      refine ((addEntryProgram_runsAs W aType (W.setText verseKey (some verse)) ret).bind
        fun ret => ih (W.setText verseKey (some verse)) ret).congr fun entries m => ?_
      have hread : readVerse (W.withEntries entries) context aType (fun _ _ => ())
          (readingOf m verseKey ret) (some verse) =
          addEntry (W.withEntries entries) aType (fun _ _ => ())
            (readingOf m (W.setText verseKey (some verse)) ret) := by
        rw [readVerse]
        exact if_neg (not_not_intro hzero)
      rw [List.foldl_cons, hread]
      dsimp only
      rw [← readingOf_addEntry]
      rfl
    · rw [if_pos hzero]
      refine ((contextProgram_runsAs W aType (context * 2 + 1).toNat
        (W.getVerse (W.setText verseKey (some verse)) - context)
        (W.getVerse (W.setText verseKey (some verse)) - context + context * 2)
        (W.setText verseKey (some verse)) ret).bind
          fun out => ih out.1 out.2).congr fun entries m => ?_
      rw [List.foldl_cons]
      have hread : readVerse (W.withEntries entries) context aType (fun _ _ => ())
          (readingOf m verseKey ret) (some verse) =
          contextLoop (W.withEntries entries) aType (fun _ _ => ()) (context * 2 + 1).toNat
            (W.getVerse (W.setText verseKey (some verse)) - context)
            (W.getVerse (W.setText verseKey (some verse)) - context + context * 2)
            (readingOf m (W.setText verseKey (some verse)) ret) := by
        rw [readVerse]
        exact if_pos hzero
      rw [hread]
      rfl

theorem entriesProgram_runsAs (aReference : Option String) (context : Int) (aType : RenderType) :
    RunsAs W (entriesProgram W aReference context aType) fun B m =>
      let (ret, _, m) :=
        textEntriesForReferenceInContext B aReference context aType (fun _ _ => ()) () m
      (ret, m) := by
  refine ((runsAs_onModule _).bind fun scheme => versesProgram_runsAs W context aType _ _ _).congr
    fun entries m => ?_
  rw [textEntriesForReferenceInContext_eq]
  rfl

theorem onKey_runsAs (change : BibleModule Key → Key → Key) :
    RunsAs W (onKey W change) fun B m => ((), { m with key := change B m.key }) := fun _ => rfl

/-- The key of a book, made of another. -/
def movedToBook (aBook : SwordBibleBook) (B : BibleModule Key) (key : Key) : Key :=
  B.setBook (B.setTestament key (char aBook.testament)) (char aBook.numberInTestament)

theorem moveToBook_runsAs (aBook : SwordBibleBook) :
    RunsAs W (moveToBook W aBook) fun B m =>
      ((), { m with key := movedToBook aBook B m.key }) :=
  (onKey_runsAs W _).bind fun _ => onKey_runsAs W _

/-- The introductions differ in how they move the key. -/
theorem introductionProgram_runsAs {move : Program (BibleState Key Pos) Unit}
    (moved : BibleModule Key → Key → Key)
    (hmove : RunsAs W move fun B m => ((), { m with key := moved B m.key })) :
    RunsAs W (introductionProgram W move) fun B m =>
      SwordModule.renderedText B.toSWModule
        (SwordModule.setSwordKey B.toSWModule (moved B (B.setIntros m.key true)) m) :=
  (onKey_runsAs W _).bind fun _ => hmove.bind fun _ => (runsAs_onModule _).bind fun _ =>
    runsAs_onModule _

theorem attributeProgram_runsAs (aKey : Key) (value : ModuleState Key → String) :
    RunsAs W (attributeProgram W aKey value) fun B m =>
      let (_, m) :=
        SwordModule.renderedText B.toSWModule (SwordModule.setSwordKey B.toSWModule aKey m)
      (value m, m) :=
  (runsAs_onModule _).bind fun _ => (runsAs_onModule _).bind fun _ => runsAs_onModule _

variable [DecidableEq Pos]

theorem writeProgram_run (anEntry : SwordModuleTextEntry) (s : BibleState Key Pos) :
    (writeProgram W anEntry).run s = ((), writeEntry W anEntry s) := by
  let m := SwordModule.setKeyString (W.withEntries s.entries).toSWModule anEntry.key s.m
  have hrun : (writeProgram W anEntry).run s =
      (if (SwordModule.error m).1 then pure () else Program.act fun s => ((), { s with
        entries := W.setEntry s.m.key (UTF8String anEntry.text) (strlen (UTF8String anEntry.text))
          s.entries })).run { s with m := (SwordModule.error m).2 } := rfl
  rw [hrun, writeEntry]
  dsimp only
  cases (SwordModule.error m).1 with
  | true => rfl
  | false => rfl

/-- A body that is left alone does what the method does in one go. -/
theorem program_run (call : BibleCall Key) (s : BibleState Key Pos) :
    (program W call).run s = perform W s call := by
  cases call with
  | textEntryForReference aReference aType =>
    exact (entryProgram_runsAs W (some aReference) aType).bind (fun _ => runsAs_pure _) s
  | textEntriesForReference aReference context aType =>
    exact (entriesProgram_runsAs W aReference context aType).bind (fun _ => runsAs_pure _) s
  | entryAttributeValuePreverseForKey aKey =>
    exact (attributeProgram_runsAs W aKey _).bind (fun _ => runsAs_pure _) s
  | entryAttributeValueFootnoteOfType fnType index aKey =>
    exact (attributeProgram_runsAs W aKey _).bind (fun _ => runsAs_pure _) s
  | moduleIntroduction =>
    exact (introductionProgram_runsAs W _ (onKey_runsAs W _)).bind (fun _ => runsAs_pure _) s
  | bookIntroductionFor aBook =>
    exact (introductionProgram_runsAs W (movedToBook aBook) (moveToBook_runsAs W aBook)).bind
      (fun _ => runsAs_pure _) s
  | chapterIntroductionIn aBook chapter =>
    exact (introductionProgram_runsAs W
      (fun B key => B.setChapter (movedToBook aBook B key) chapter)
      ((moveToBook_runsAs W aBook).bind fun _ => onKey_runsAs W _)).bind (fun _ => runsAs_pure _) s
  | writeEntry anEntry =>
    rw [program, Program.run_bind, writeProgram_run]
    rfl

/-! ## The entries as a store

What a Bible is for a caller that reads and writes: a map from positions to entries. Of the module
that stands somewhere nothing is to be seen, except in the introductions, which start from there. -/

/-- What a call does to the entries. -/
def effect : BibleCall Key → (Pos → CString) → Pos → CString
  | .writeEntry anEntry, entries =>
    let key := W.setText W.createKey anEntry.key
    if W.error key then entries
    else W.setEntry key (UTF8String anEntry.text) (strlen (UTF8String anEntry.text)) entries
  | _, entries => entries

/-- The attributes at a key, as rendering leaves them. -/
def attributesAt (W : WritableBible Key Pos) (entries : Pos → CString) (aKey : Key) :
    ModuleState Key :=
  ⟨aKey, W.error aKey, W.attributes aKey (entries (W.position aKey))⟩

omit [DecidableEq Pos] in
/-- What the entries say to a call, if they do. -/
def answerOf (entries : Pos → CString) : BibleCall Key → Option BibleAnswer
  | .textEntryForReference aReference aType =>
    some (.entry (SwordModule.entryAt (W.withEntries entries).toSWModule aType (some aReference)))
  | .textEntriesForReference aReference context aType =>
    some (.entries ((keysRead (W.withEntries entries) aReference context).filterMap
      (entryAt (W.withEntries entries) aType)))
  | .entryAttributeValuePreverseForKey aKey =>
    some (.value (SwordModule.entryAttributeValuePreverse (attributesAt W entries aKey)))
  | .entryAttributeValueFootnoteOfType fnType index aKey =>
    some (.value (SwordModule.entryAttributeValueFootnoteOfType fnType index
      (attributesAt W entries aKey)))
  | .writeEntry _ => some .written
  | .moduleIntroduction | .bookIntroductionFor _ | .chapterIntroductionIn _ _ => none

theorem writeEntry_entries (anEntry : SwordModuleTextEntry) (s : BibleState Key Pos) :
    (writeEntry W anEntry s).entries = effect W (.writeEntry anEntry) s.entries := by
  have herror : (SwordModule.error (SwordModule.setKeyString (W.withEntries s.entries).toSWModule
    anEntry.key s.m)).1 = W.error (W.setText W.createKey anEntry.key) := rfl
  rw [writeEntry, effect]
  dsimp only
  rw [herror]
  cases W.error (W.setText W.createKey anEntry.key) with
  | true => rfl
  | false => rfl

/-- A call changes the entries as the store does. -/
theorem perform_entries (call : BibleCall Key) (s : BibleState Key Pos) :
    (perform W s call).2.entries = effect W call s.entries := by
  cases call with
  | writeEntry anEntry => exact writeEntry_entries W anEntry s
  | textEntryForReference aReference aType => rfl
  | textEntriesForReference aReference context aType => rfl
  | entryAttributeValuePreverseForKey aKey => rfl
  | entryAttributeValueFootnoteOfType fnType index aKey => rfl
  | moduleIntroduction => rfl
  | bookIntroductionFor aBook => rfl
  | chapterIntroductionIn aBook chapter => rfl

/-- A call is answered by the store, wherever the module stands. -/
theorem perform_answer {call : BibleCall Key} {s : BibleState Key Pos} {answer : BibleAnswer}
    (h : answerOf W s.entries call = some answer) : (perform W s call).1 = answer := by
  cases call with
  | writeEntry anEntry => exact Option.some.inj h
  | textEntryForReference aReference aType =>
    rw [← Option.some.inj h]
    exact congrArg (fun out => BibleAnswer.entry out.1)
      (SwordModule.textEntryForReference_eq _ (some aReference) aType s.m)
  | textEntriesForReference aReference context aType =>
    rw [← Option.some.inj h]
    exact congrArg (fun out => BibleAnswer.entries out.1)
      (textEntriesForReferenceInContext_of_keys _ aReference context aType (fun _ _ => ()) () s.m)
  | entryAttributeValuePreverseForKey aKey => exact Option.some.inj h
  | entryAttributeValueFootnoteOfType fnType index aKey => exact Option.some.inj h
  | moduleIntroduction => cases h
  | bookIntroductionFor aBook => cases h
  | chapterIntroductionIn aBook chapter => cases h

/-! ## Callers of one object -/

variable {ι : Type}

/-- What some calls, one after the other, do to the entries. -/
def contentAfter (calls : ι → BibleCall Key) (order : List ι) (entries : Pos → CString) :
    Pos → CString :=
  order.foldl (fun entries i => effect W (calls i) entries) entries

/-- The calls one after the other, each in one go. -/
def performAll (calls : ι → BibleCall Key) : List ι → BibleState Key Pos →
    List (ι × BibleAnswer) × BibleState Key Pos
  | [], s => ([], s)
  | i :: order, s =>
    let (answer, s) := perform W s (calls i)
    let (answers, s) := performAll calls order s
    ((i, answer) :: answers, s)

theorem performAll_entries (calls : ι → BibleCall Key) (order : List ι) (s : BibleState Key Pos) :
    (performAll W calls order s).2.entries = contentAfter W calls order s.entries := by
  induction order generalizing s with
  | nil => rfl
  | cons i order ih =>
    have hrest := ih (perform W s (calls i)).2
    rw [perform_entries] at hrest
    exact hrest

/-- What is answered in the middle of the calls: the entries are those that the calls before have
left. -/
theorem performAll_answer (calls : ι → BibleCall Key) (order : List ι) (s : BibleState Key Pos)
    {i : ι} {result : BibleAnswer} (h : (i, result) ∈ (performAll W calls order s).1) :
    ∃ before later, order = before ++ i :: later ∧
      ∀ answer, answerOf W (contentAfter W calls before s.entries) (calls i) = some answer →
        result = answer := by
  induction order generalizing s with
  | nil => exact absurd h List.not_mem_nil
  | cons k order ih =>
    rcases List.mem_cons.mp h with heq | hmem
    · cases heq
      exact ⟨[], order, rfl, fun answer hanswer => perform_answer W hanswer⟩
    · obtain ⟨before, later, rfl, hanswer⟩ := ih (perform W s (calls k)).2 hmem
      rw [perform_entries] at hanswer
      exact ⟨k :: before, later, rfl, hanswer⟩

theorem inTurn_callOn (moduleLock : Nat) (calls : ι → BibleCall Key) (order : List ι)
    (s : BibleState Key Pos) :
    inTurn (fun i => callOn W moduleLock (calls i)) order s = performAll W calls order s := by
  induction order generalizing s with
  | nil => rfl
  | cons i order ih =>
    have hbody : (callOn W moduleLock (calls i)).body.run s = perform W s (calls i) :=
      program_run W (calls i) s
    simp only [inTurn, performAll, hbody, ih]

variable [DecidableEq ι]

/-- Where the callers of one object are after some turns. -/
def callsAfter (moduleLock : Nat) (calls : ι → BibleCall Key) (s : BibleState Key Pos)
    (schedule : List ι) :
    Lib.Interleaving.State ι (Shared ι Nat (BibleState Key Pos))
      (Phase (BibleState Key Pos) BibleAnswer) :=
  Lib.Interleaving.run (Lib.Monitor.turn fun i => callOn W moduleLock (calls i))
    (Lib.Monitor.start s) schedule

/-- The calls in the order in which they gave the lock back. -/
def orderOf (moduleLock : Nat) (calls : ι → BibleCall Key) (s : BibleState Key Pos)
    (schedule : List ι) : List ι :=
  (log (fun i => callOn W moduleLock (calls i)) (Lib.Monitor.start s) schedule).map Prod.fst

theorem serial_calls (moduleLock : Nat) (calls : ι → BibleCall Key) (s : BibleState Key Pos)
    (schedule : List ι) :
    Serial (fun i => callOn W moduleLock (calls i)) s (callsAfter W moduleLock calls s schedule)
      (log (fun i => callOn W moduleLock (calls i)) (Lib.Monitor.start s) schedule) :=
  serial_run (fun _ _ => rfl) s schedule

/-- When nobody has the lock. -/
theorem settled_calls (moduleLock : Nat) (calls : ι → BibleCall Key) (s : BibleState Key Pos)
    (schedule : List ι)
    (hnobody : ∀ i, ¬ ((callsAfter W moduleLock calls s schedule).callers i).Inside) :
    (callsAfter W moduleLock calls s schedule).shared.state =
      (performAll W calls (orderOf W moduleLock calls s schedule) s).2 := by
  rw [← inTurn_callOn W moduleLock]
  exact (serial_calls W moduleLock calls s schedule).settled hnobody

/-- Where a returned answer is from. -/
theorem returned_call {moduleLock : Nat} {calls : ι → BibleCall Key} {s : BibleState Key Pos}
    {schedule : List ι} {i : ι} {answer : BibleAnswer}
    (h : (callsAfter W moduleLock calls s schedule).callers i = .returned answer) :
    ∃ result first rest,
      (i, result) ∈ (performAll W calls (orderOf W moduleLock calls s schedule) s).1 ∧
        schedule = first ++ i :: rest ∧
          answer = afterLock W (callsAfter W moduleLock calls s first).shared.state result := by
  obtain ⟨first, rest, result, hschedule, hleft, hanswer⟩ := returned_at h
  refine ⟨result, first, rest, ?_, hschedule, hanswer⟩
  have hresults := (serial_calls W moduleLock calls s schedule).results
  have hlogged := (serial_calls W moduleLock calls s first).accounts i
  rw [inTurn_callOn] at hresults
  rw [callsAfter, hleft] at hlogged
  rw [orderOf, hresults, hschedule, log_append]
  exact List.mem_append_left _ hlogged

/-- **The calls on a Bible come one after the other.** Whatever calls any number of callers make of
one object, and however their turns fall, there is an order of the calls that gave the lock back,
each of them once, such that

- what a call returned is its answer when the calls are performed in this order, each in one go; a
  heading is added to it as the state was when the call returned;
- when nobody has the lock, the module and its entries are as these calls leave them;
- a call that gave the lock back before another one began is the earlier one. -/
theorem calls_serial (moduleLock : Nat) (calls : ι → BibleCall Key) (s : BibleState Key Pos)
    (schedule : List ι) :
    let now := callsAfter W moduleLock calls s schedule
    ∃ order : List ι, order.Nodup ∧ (∀ i, i ∈ order ↔ (now.callers i).Over) ∧
      (∀ i answer, now.callers i = .returned answer → ∃ result first rest,
        (i, result) ∈ (performAll W calls order s).1 ∧ schedule = first ++ i :: rest ∧
          answer = afterLock W (callsAfter W moduleLock calls s first).shared.state result) ∧
      ((∀ i, ¬ (now.callers i).Inside) → now.shared.state = (performAll W calls order s).2) ∧
      ∀ first rest, schedule = first ++ rest → ∀ i j,
        ((callsAfter W moduleLock calls s first).callers i).Over →
        (callsAfter W moduleLock calls s first).callers j = .called →
          order.idxOf i < order.idxOf j := by
  have hserial := serial_calls W moduleLock calls s schedule
  refine ⟨orderOf W moduleLock calls s schedule, hserial.once, fun i => (hserial.over_iff i).symm,
    fun i answer hreturned => returned_call W hreturned,
    settled_calls W moduleLock calls s schedule, ?_⟩
  rintro first rest rfl i j hi hj
  exact log_precedes (fun _ _ => rfl) s first rest hi hj

/-- A Bible whose keys are their texts, and which has no filters. -/
def plainBible : WritableBible String String where
  setText k text := text.getD k
  getText k := k
  init := ""
  setVersificationSystem k _ := k
  setIntros k _ := k
  getTestament _ := 1
  getBook _ := 1
  getVerse _ := 1
  setTestament k _ := k
  setBook k _ := k
  setChapter k _ := k
  setVerse k _ := k
  increment k := k
  parseVerseList _ ref _ _ := ref.toList
  createKey := ""
  error k := k = ""
  getConfigEntry _ := none
  has _ _ := false
  globalOption _ := false
  position k := k
  render _ buf := buf
  strip _ buf := buf
  attributes _ _ := ∅

/-- Two callers that take turns. -/
def alternating (n : Nat) : Bool := n % 2 = 0

theorem fair_alternating : Lib.Interleaving.Fair alternating := by
  intro i n
  cases i with
  | true => exact ⟨2 * n, by omega, decide_eq_true (by omega)⟩
  | false => exact ⟨2 * n + 1, by omega, decide_eq_false (by omega)⟩

/-- A reader and a writer. -/
def readAndWrite : Bool → BibleCall String
  | true => .textEntryForReference "Gen 1:1" .stripped
  | false => .writeEntry { key := some "Gen 1:1", text := "In the beginning" }

end ObjCSword.SwordBible
