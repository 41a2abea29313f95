import ObjCSword.SwordVerseKey

/-!
# Enumerating a list key

`VerseEnumerator` (VerseEnumerator.mm) keeps nothing of its own: it moves the list key it was made
with, so its state is the cursor of that list.
-/

namespace ObjCSword.VerseEnumerator

open Lib

/-- `initWithListKey:`. -/
def initWithListKey (aListKey : Cursor String) : Cursor String := aListKey.top

/-- `allObjects`. -/
def allObjects (lk : Cursor String) : List String × Cursor String :=
  let t := Cursor.forEach (fun t verse => t ++ [SwordListKey.keyText verse])
    (lk.elems.length + 1) lk.top []
  -- position TOP again
  (t, lk.top)

/-- `nextObject`. -/
def nextObject (lk : Cursor String) : Option String × Cursor String :=
  let (error, lk) := lk.popError
  if error then (none, lk) else (some (SwordListKey.keyText lk.current), lk.increment)

end ObjCSword.VerseEnumerator
