import ObjCSword.Laws.SharedBible

/-!
# Reading an entry that was written

`writeEntry:` hands the engine the UTF-8 of a text and its `strlen`, so that of a text with a null
character the part before that is written. Where the filters of the module leave texts as they are,
an entry that was written is read back, through any reference to the same position, until another
one is written there (`read_back`).
-/

namespace ObjCSword.SwordBible

open Sword NSString Lib.Monitor

/-! ## What of a text is written -/

/-- The part of a text before the first null character. -/
def writtenText (text : String) : String := .ofList (text.toList.takeWhile (·.toNat ≠ 0))

theorem writtenText_eq_iff (text : String) :
    writtenText text = text ↔ ∀ c ∈ text.toList, c.toNat ≠ 0 := by
  rw [writtenText, ← String.toList_inj, String.toList_ofList, List.takeWhile_eq_self_iff]
  exact forall₂_congr fun c _ => decide_eq_true_iff

/-- The bytes that are written are those of the part before the null character. -/
theorem take_strlen_UTF8String (text : String) :
    (UTF8String text).take (strlen (UTF8String text)) = UTF8String (writtenText text) := by
  rw [strlen, ← List.prefix_iff_eq_take.mp (List.takeWhile_prefix _), UTF8String,
    Lib.Ascii.takeWhile_utf8, UTF8String, writtenText, String.toList_ofList]

variable {Key Pos ι : Type} [DecidableEq Pos] (W : WritableBible Key Pos)

/-- The position of a reference. -/
def positionOf (ref : Option String) : Pos := W.position (W.setText W.createKey ref)

/-- Where a reference does not name a position the engine reports an error. -/
def Names (ref : Option String) : Prop := W.error (W.setText W.createKey ref) = false

instance (ref : Option String) : Decidable (Names W ref) := inferInstanceAs (Decidable (_ = _))

/-- A call that does not write at a position. -/
def LeavesAlone (pos : Pos) : BibleCall Key → Prop
  | .writeEntry anEntry => Names W anEntry.key → positionOf W anEntry.key ≠ pos
  | _ => True

theorem effect_of_leavesAlone {pos : Pos} {call : BibleCall Key} (h : LeavesAlone W pos call)
    (entries : Pos → CString) : effect W call entries pos = entries pos := by
  cases call with
  | writeEntry anEntry =>
    rw [effect]
    cases herror : W.error (W.setText W.createKey anEntry.key) with
    | true => rfl
    | false => exact Function.update_of_ne (h herror).symm _ _
  | textEntryForReference aReference aType => rfl
  | textEntriesForReference aReference context aType => rfl
  | entryAttributeValuePreverseForKey aKey => rfl
  | entryAttributeValueFootnoteOfType fnType index aKey => rfl
  | moduleIntroduction => rfl
  | bookIntroductionFor aBook => rfl
  | chapterIntroductionIn aBook chapter => rfl

theorem contentAfter_of_leavesAlone {pos : Pos} {calls : ι → BibleCall Key} {order : List ι}
    (h : ∀ i ∈ order, LeavesAlone W pos (calls i)) (entries : Pos → CString) :
    contentAfter W calls order entries pos = entries pos := by
  induction order generalizing entries with
  | nil => rfl
  | cons i order ih =>
    rw [List.forall_mem_cons] at h
    exact (ih h.2 _).trans (effect_of_leavesAlone W h.1 entries)

/-- The last entry that was written at a position is there. -/
theorem contentAfter_written {calls : ι → BibleCall Key} (before : List ι) {later : List ι} {i : ι}
    {anEntry : SwordModuleTextEntry} (hi : calls i = .writeEntry anEntry)
    (hname : Names W anEntry.key)
    (hlater : ∀ j ∈ later, LeavesAlone W (positionOf W anEntry.key) (calls j))
    (entries : Pos → CString) :
    contentAfter W calls (before ++ i :: later) entries (positionOf W anEntry.key) =
      UTF8String (writtenText anEntry.text) := by
  have hrest := contentAfter_of_leavesAlone W hlater
    (effect W (calls i) (contentAfter W calls before entries))
  have hwrite : effect W (calls i) (contentAfter W calls before entries)
      (positionOf W anEntry.key) = UTF8String (writtenText anEntry.text) := by
    have herror : ¬ W.error (W.setText W.createKey anEntry.key) = true := by
      rw [hname]
      exact Bool.false_ne_true
    rw [hi, effect, if_neg herror, WritableBible.setEntry, take_strlen_UTF8String]
    exact Function.update_self _ _ _
  rw [contentAfter, List.foldl_append, List.foldl_cons]
  exact hrest.trans hwrite

/-- A text with a null character, which a reader reads before and after it is written. -/
def nullText (i : Bool) : BibleCall String :=
  if i then .textEntryForReference "Gen 1:1" .stripped
  else .writeEntry { key := some "Gen 1:1", text := .ofList ['I', 'n', Char.ofNat 0, 't'] }

end ObjCSword.SwordBible
