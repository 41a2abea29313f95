import ObjCSword.Engine.Module
import ObjCSword.Lib.Cursor

/-!
# Verse keys and list keys

How `SwordVerseKey` (SwordVerseKey.mm) and `SwordListKey` (SwordListKey.mm) make their engine keys.
Their other methods pass one call on to the engine and stand in the record of its operations.
-/

namespace ObjCSword

open Sword

variable {Key : Type}

/-- `-[SwordVerseKey initWithRef:v11n:]`. -/
def SwordVerseKey.initWithRef (V : VerseKey Key) (aRef scheme : Option String) : Key :=
  let vk := V.init
  let vk := match scheme with
    | some scheme => V.setVersificationSystem vk scheme
    | none => vk
  match aRef with
  | some aRef => V.setText vk (some aRef)
  | none => vk

/-- `-[SwordListKey initWithRef:headings:v11n:]`. A `sword::ListKey` is walked like any list. -/
def SwordListKey.initWithRef (V : VerseKey Key) (aRef : Option String) (headings : Bool)
    (scheme : Option String) : Lib.Cursor String :=
  let vk := V.init
  let vk := V.setIntros vk headings
  let vk := match scheme with
    | some scheme => V.setVersificationSystem vk scheme
    | none => vk
  .ofList (V.parseVerseList vk aRef "gen" true)

/-- `keyText` of a list key: the text of the element it stands on. -/
def SwordListKey.keyText (current : Option String) : String := current.getD ""

end ObjCSword
