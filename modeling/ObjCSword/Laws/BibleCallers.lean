import ObjCSword.Laws.Callers
import ObjCSword.SwordManager

/-!
# Callers of one Bible object

The calls of the superclass's method are kept apart by the object's lock, but a Bible reads the
heading from the module after that method has given the lock back. What is there then are the
attributes of whatever was read last, so an entry comes with the heading of a reference that some
caller reads (`returned_entry`), its own or not.
-/

namespace ObjCSword.SwordBible

open Sword Lib.Interleaving
open SwordModule (Shared EntryCall)

variable {ι Key : Type}

variable {B : BibleModule Key} {calls : ι → EntryCall}

/-- Nobody has begun yet, and all locks are free. -/
def start (m : ModuleState Key) : State ι (Shared ι Key) CallPhase :=
  ⟨⟨fun _ => none, m⟩, fun _ => ⟨.called, none⟩⟩

/-- A turn is one of the superclass's method, or leaves that method and the module alone. -/
theorem turn_superCall (B : BibleModule Key) (calls : ι → EntryCall) (i : ι) (s : Shared ι Key)
    (call : CallPhase) :
    SwordModule.turn B.toSWModule calls i s call.superCall =
      ((turn B calls i s call).1, (turn B calls i s call).2.superCall) := by
  obtain ⟨superCall, ret⟩ := call
  cases superCall with
  | returned superEntry =>
    cases ret with
    | none => rfl
    | some ret => rfl
  | called => rfl
  | locked => rfl
  | positioned => rfl
  | checked => rfl
  | read superRet => rfl

/-- What is seen of a run in the superclass's method is a run of that method. -/
theorem superCall_run [DecidableEq ι] (B : BibleModule Key) (calls : ι → EntryCall)
    (m : ModuleState Key) (schedule : List ι) :
    run (SwordModule.turn B.toSWModule calls) (SwordModule.start m) schedule =
      (run (turn B calls) (start m) schedule).map CallPhase.superCall :=
  run_map (turn_superCall B calls) (start m) schedule

/-- A call returns once. -/
theorem turn_ret (i : ι) (s : Shared ι Key) (superCall : SwordModule.CallPhase)
    (ret : Option SwordModuleTextEntry) :
    (turn B calls i s ⟨superCall, some ret⟩).2.ret = some ret := by
  cases superCall with
  | returned superEntry => rfl
  | called => rfl
  | locked => rfl
  | positioned => rfl
  | checked => rfl
  | read superRet => rfl

/-- Six turns of a caller alone are a call, and the lock is free again. -/
theorem run_alone [DecidableEq ι] (B : BibleModule Key) (calls : ι → EntryCall)
    {s : State ι (Shared ι Key) CallPhase} {i : ι} {ref : String}
    (href : (calls i).aKeyString = some ref) (hcalled : s.callers i = ⟨.called, none⟩)
    (hfree : s.shared.owner (calls i).moduleLock = none) :
    let superOut :=
      SwordModule.textEntryForReference B.toSWModule (some ref) (calls i).aType s.shared.m
    let out := textEntryForReference B ref (calls i).aType s.shared.m
    run (turn B calls) s (List.replicate 6 i) =
      ⟨{ s.shared with m := out.2 },
        Function.update s.callers i ⟨.returned superOut.1, some out.1⟩⟩ := by
  have howner : Function.update (Function.update s.shared.owner (calls i).moduleLock (some i))
      (calls i).moduleLock none = s.shared.owner := by
    rw [Function.update_idem, ← hfree, Function.update_eq_self]
  have hkeyFor : SwordModule.keyFor B.toSWModule calls i =
      SwordModule.keyOf B.toSWModule (some ref) := by
    rw [SwordModule.keyFor, href]
  rw [run_replicate, hcalled, textEntryForReference_eq_map, SwordModule.textEntryForReference_eq]
  simp only [turns, turn, SwordModule.turn_called, if_pos hfree, SwordModule.turn_locked,
    SwordModule.turn_positioned, hkeyFor]
  cases hread : B.error (SwordModule.keyOf B.toSWModule (some ref)) with
  | true =>
    simp only [if_true, SwordModule.turn, howner,
      @SwordModule.entryAt_of_error _ B.toSWModule _ hread, SwordModule.stateAfter, hread,
      Option.map_none]
  | false =>
    simp only [Bool.false_eq_true, if_false, SwordModule.turn_checked]
    simp only [SwordModule.turn, howner,
      @SwordModule.entryAt_of_readable _ B.toSWModule _ hread, SwordModule.stateAfter, hread, href,
      Bool.false_eq_true, if_false]

/-! ## What is returned -/

/-- What was returned is the entry of the superclass's method and a heading, read from the module in
a good state. -/
def Assembled (B : BibleModule Key) (Good : ModuleState Key → Prop) (call : CallPhase) : Prop :=
  ∀ entry, call.ret = some (some entry) → ∃ superEntry m,
    call.superCall = .returned (some superEntry) ∧ Good m ∧
      entry = addPreVerseHeading B m superEntry

/-- It stays so, if the module is in a good state whenever a heading is read. -/
theorem Assembled.turn {Good : ModuleState Key → Prop} {i : ι} {s : Shared ι Key} {call : CallPhase}
    (h : Assembled B Good call)
    (good : ∀ superEntry, call.superCall = .returned (some superEntry) → Good s.m) :
    Assembled B Good (turn B calls i s call).2 := by
  obtain ⟨superCall, ret⟩ := call
  cases ret with
  | some ret =>
    intro entry hentry
    rw [turn_ret] at hentry
    obtain ⟨superEntry, m, hsuper, hm⟩ := h entry hentry
    cases hsuper
    exact ⟨superEntry, m, rfl, hm⟩
  | none =>
    cases superCall with
    | returned superEntry =>
      intro entry hentry
      obtain ⟨superEntry, rfl, rfl⟩ := Option.map_eq_some_iff.mp (Option.some.inj hentry)
      exact ⟨superEntry, s.m, rfl, good superEntry rfl, rfl⟩
    | called => exact nofun
    | locked => exact nofun
    | positioned => exact nofun
    | checked => exact nofun
    | read superRet => exact nofun

/-- The heading is all that is added. -/
theorem addPreVerseHeading_fixed (B : BibleModule Key) (m : ModuleState Key)
    (entry : SwordModuleTextEntry) :
    (addPreVerseHeading B m entry).key = entry.key ∧
      (addPreVerseHeading B m entry).text = entry.text := by
  unfold addPreVerseHeading
  dsimp only
  split
  · split
    · exact ⟨rfl, rfl⟩
    · exact ⟨rfl, rfl⟩
  · exact ⟨rfl, rfl⟩

/-- **Whose text a Bible returns**, with any locks: what the superclass's method read. -/
theorem text_of_returned [DecidableEq ι] (B : BibleModule Key) (calls : ι → EntryCall)
    (m : ModuleState Key) (schedule : List ι) {i : ι} {entry : SwordModuleTextEntry}
    (hreturned : ((run (turn B calls) (start m) schedule).callers i).ret = some (some entry)) :
    entry.key = (calls i).aKeyString ∧ ∃ j, SwordModule.NotExcluded calls i j ∧
      SwordModule.textAt B.toSWModule (calls i).aType
        (SwordModule.keyFor B.toSWModule calls j) = some entry.text := by
  let Inv (s : State ι (Shared ι Key) CallPhase) : Prop :=
    ∀ i, Assembled B (fun _ => True) (s.callers i)
  have hrun : Inv (run (turn B calls) (start m) schedule) := by
    refine run_invariant (fun s k h => ?_) (fun _ => nofun) schedule
    exact step_forall (fun _ _ call => Assembled B (fun _ => True) call)
      ((h k).turn fun _ _ => trivial) fun i _ => h i
  obtain ⟨superEntry, m', hsuper, -, rfl⟩ := hrun i entry hreturned
  have hreads : SwordModule.ReadsAt B.toSWModule calls i
      (run (turn B calls) (start m) schedule).shared
      ((run (turn B calls) (start m) schedule).callers i).superCall := by
    have hrun := SwordModule.readsAt_run B.toSWModule calls m schedule i
    rw [superCall_run] at hrun
    exact hrun
  rw [hsuper] at hreads
  obtain ⟨hkey, htext⟩ := addPreVerseHeading_fixed B m' superEntry
  rw [hkey, htext]
  exact hreads superEntry rfl

/-! ## Callers of one object -/

/-- The calls of callers that share an object. -/
def callsTo (object : SwordModuleObject) (refs : ι → String) (types : ι → RenderType) (i : ι) :
    EntryCall :=
  ⟨object.moduleLock, some (refs i), types i⟩

/-- Callers of one Bible object, at any time: each heading was read from the attributes of a
reference that can be read. -/
def Consistent (B : BibleModule Key) (object : SwordModuleObject) (refs : ι → String)
    (types : ι → RenderType) (s : State ι (Shared ι Key) CallPhase) : Prop :=
  SwordModule.OneAtATime B.toSWModule (callsTo object refs types) (s.map CallPhase.superCall) ∧
    ∀ i, Assembled B (SwordModule.Filled B.toSWModule (callsTo object refs types)) (s.callers i)

theorem consistent_run [DecidableEq ι] (B : BibleModule Key) (object : SwordModuleObject)
    (refs : ι → String) (types : ι → RenderType) (m : ModuleState Key) (schedule : List ι) :
    Consistent B object refs types
      (run (turn B (callsTo object refs types)) (start m) schedule) := by
  refine run_invariant (fun s k h => ?_) ⟨SwordModule.oneAtATime_start m, fun _ => nofun⟩ schedule
  refine ⟨?_, step_forall (fun _ _ call => Assembled B _ call) ?_ fun i _ => h.2 i⟩
  · rw [← step_map (turn_superCall B (callsTo object refs types))]
    exact h.1.step (fun _ _ => rfl) k
  · refine (h.2 k).turn fun superEntry hsuper => ?_
    have hreads : SwordModule.ReadsOwn B.toSWModule (callsTo object refs types) k s.shared
        (s.callers k).superCall := h.1.2 k
    rw [hsuper] at hreads
    exact hreads.2 nofun

/-- **What callers of one Bible object are returned:** the entry of their reference, with the
heading of a reference that a caller can read. -/
theorem returned_entry [DecidableEq ι] (B : BibleModule Key) (object : SwordModuleObject)
    (refs : ι → String) (types : ι → RenderType) (m : ModuleState Key) (schedule : List ι) {i : ι}
    {entry : SwordModuleTextEntry}
    (hreturned : ((run (turn B (callsTo object refs types)) (start m) schedule).callers i).ret =
      some (some entry)) :
    ∃ superEntry j, SwordModule.entryAt B.toSWModule (types i) (some (refs i)) = some superEntry ∧
      B.error (SwordModule.keyOf B.toSWModule (some (refs j))) = false ∧
      entry = withHeadingAt B (refs j) superEntry := by
  obtain ⟨hone, hassembled⟩ := consistent_run B object refs types m schedule
  obtain ⟨superEntry, m', hsuper, ⟨j, hread, hattr⟩, rfl⟩ := hassembled i entry hreturned
  have hreads : SwordModule.ReadsOwn B.toSWModule (callsTo object refs types) i _
      ((run (turn B (callsTo object refs types)) (start m) schedule).callers i).superCall :=
    hone.2 i
  rw [hsuper] at hreads
  exact ⟨_, j, hreads.1.symm, hread, addPreVerseHeading_eq hread hattr superEntry⟩

/-- A caller is given the heading of one that reads the Bible before it reads its own. -/
theorem heading_overtaken [DecidableEq ι] (B : BibleModule Key) (object : SwordModuleObject)
    (refs : ι → String) (types : ι → RenderType) (m : ModuleState Key) {i j : ι} (hne : i ≠ j)
    {superEntry : SwordModuleTextEntry}
    (hentry : SwordModule.entryAt B.toSWModule (types i) (some (refs i)) = some superEntry)
    (hread : B.error (SwordModule.keyOf B.toSWModule (some (refs j))) = false) :
    ((run (turn B (callsTo object refs types)) (start m) [i, i, i, i, i, j, j, j, j, i]).callers
      i).ret = some (some (withHeadingAt B (refs j) superEntry)) := by
  obtain ⟨hown, txt, htxt, rfl⟩ := SwordModule.entryAt_eq_some_iff.mp hentry
  have hlock : ∀ k, (callsTo object refs types k).moduleLock = object.moduleLock := fun _ => rfl
  have hi : B.error (SwordModule.keyFor B.toSWModule (callsTo object refs types) i) = false := hown
  have hj : B.error (SwordModule.keyFor B.toSWModule (callsTo object refs types) j) = false := hread
  simp only [run, List.foldl_cons, List.foldl_nil, step, start, Function.update_self,
    Function.update_of_ne hne, Function.update_of_ne hne.symm, turn, SwordModule.turn_called,
    SwordModule.turn_locked, SwordModule.turn_positioned, SwordModule.turn_checked,
    SwordModule.turn_read, if_true, Bool.false_eq_true, if_false, hlock, hi, hj]
  have htext : SwordModule.textAt B.toSWModule (callsTo object refs types i).aType
      (SwordModule.keyFor B.toSWModule (callsTo object refs types) i) = some txt := htxt
  rw [htext, Option.map_some, Option.map_some]
  exact congrArg (fun entry => some (some entry)) (addPreVerseHeading_eq hread rfl _)

/-- **Whether callers of a Bible get their own headings.** In every interleaving every heading that
is returned with the text of a reference is that reference's, exactly when the heading of a
reference that can be read is the one of every reference that has an entry. -/
theorem own_heading_iff [DecidableEq ι] (B : BibleModule Key) (object : SwordModuleObject)
    (refs : ι → String) (types : ι → RenderType) (m : ModuleState Key) :
    (∀ schedule i entry,
        ((run (turn B (callsTo object refs types)) (start m) schedule).callers i).ret =
          some (some entry) →
        SwordModule.textAt B.toSWModule (types i)
          (SwordModule.keyOf B.toSWModule (some (refs i))) = some entry.text →
        ∀ heading, entry.preVerseHeading = some heading → heading ≠ "" →
          headingAt B (refs i) = some heading) ↔
      ∀ i j, SwordModule.entryAt B.toSWModule (types i) (some (refs i)) ≠ none →
        B.error (SwordModule.keyOf B.toSWModule (some (refs j))) = false →
        ∀ heading, headingAt B (refs j) = some heading → headingAt B (refs i) = some heading := by
  constructor
  · intro hown i j hentry hread heading hheading
    by_cases hne : i = j
    · rw [hne]
      exact hheading
    · obtain ⟨superEntry, hsuper⟩ := Option.ne_none_iff_exists'.mp hentry
      have hrun := heading_overtaken B object refs types m hne hsuper hread
      obtain ⟨-, txt, htxt, rfl⟩ := SwordModule.entryAt_eq_some_iff.mp hsuper
      refine hown _ i _ hrun htxt heading ?_ (headingAt_ne_empty hheading)
      rw [withHeadingAt, hheading, Option.getD_some]
  · intro hsame schedule i entry hreturned _ heading hheading hne
    obtain ⟨superEntry, j, hsuper, hread, rfl⟩ := returned_entry B object refs types m schedule
      hreturned
    refine hsame i j ?_ hread heading ?_
    · rw [hsuper]
      exact Option.some_ne_none superEntry
    · have hadded : (headingAt B (refs j)).getD "" = heading := Option.some.inj hheading
      cases hthere : headingAt B (refs j) with
      | none =>
        rw [hthere, Option.getD_none] at hadded
        exact absurd hadded.symm hne
      | some there =>
        rw [hthere, Option.getD_some] at hadded
        rw [hadded]

/-- The attributes of a verse with a heading. -/
def headed (heading : String) : AttributeTypeList :=
  AList.insert "Heading" (AList.insert "Preverse" (AList.insert "0" heading ∅) ∅) ∅

/-- A Bible of two verses, with headings. The key is whether it stands on the second. -/
def headedVerses : BibleModule Bool where
  setText _ text := text = some "Gen 1:3"
  getText second := if second then "Gen 1:3" else "Gen 1:1"
  init := false
  setVersificationSystem key _ := key
  setIntros key _ := key
  getTestament _ := 1
  getBook _ := 1
  getVerse second := if second then 3 else 1
  setTestament key _ := key
  setBook key _ := key
  setChapter key _ := key
  setVerse key _ := key
  increment _ := true
  parseVerseList _ _ _ _ := []
  createKey := false
  error _ := false
  renderText second := some (if second then "And God said" else "In the beginning")
  stripText second := some (if second then "And God said" else "In the beginning")
  entryAttributes second := headed (if second then "Light" else "Creation")
  getConfigEntry _ := none
  has _ _ := true
  globalOption _ := true

/-- The text of the first verse is returned with the heading of the second. -/
theorem heading_of_other_caller :
    ((run (turn headedVerses (callsTo ⟨0, 1, .bible⟩
          (fun second => if second then "Gen 1:3" else "Gen 1:1") fun _ => .rendered))
        (start ⟨false, false, ∅⟩)
        [false, false, false, false, false, true, true, true, true, false]).callers false).ret =
      some (some
        { key := some "Gen 1:1", text := "In the beginning", preVerseHeading := some "Light" }) ∧
    headingAt headedVerses "Gen 1:1" = some "Creation" :=
  ⟨rfl, rfl⟩

end ObjCSword.SwordBible
