import Mathlib.Logic.Function.Basic
import ObjCSword.Engine.Module
import ObjCSword.Foundation.NSString

/-!
# Bibles that can be written

What a Bible answers about its texts comes from the entries that it keeps, one at each position, and
`setEntry` puts another one there. A `WritableBible` is the rest: its keys, where a key stands, and
what its filters make of a raw entry. With some entries it is a Bible like any other.
-/

namespace ObjCSword.Sword

open NSString

/-- A Bible without its entries. -/
structure WritableBible (Key Pos : Type) extends VerseKey Key where
  createKey : Key
  error : Key → Bool
  getConfigEntry : String → Option String
  has : String → String → Bool
  globalOption : String → Bool
  position : Key → Pos
  /-- What the render filters and the strip filters make of a raw entry. -/
  render : Key → CString → CString
  strip : Key → CString → CString
  /-- The attributes that the filters find in a raw entry. -/
  attributes : Key → CString → AttributeTypeList

namespace WritableBible

variable {Key Pos : Type}

/-- The Bible, with the entries it keeps now. -/
def withEntries (W : WritableBible Key Pos) (entries : Pos → CString) : BibleModule Key where
  toVerseKey := W.toVerseKey
  createKey := W.createKey
  error := W.error
  renderText key := stringOfAnswer (W.render key (entries (W.position key)))
  stripText key := stringOfAnswer (W.strip key (entries (W.position key)))
  entryAttributes key := W.attributes key (entries (W.position key))
  getConfigEntry := W.getConfigEntry
  has := W.has
  globalOption := W.globalOption

/-- `setEntry(data, dLen)` on a module that stands on a key. -/
def setEntry [DecidableEq Pos] (W : WritableBible Key Pos) (key : Key) (data : CString) (dLen : Nat)
    (entries : Pos → CString) : Pos → CString :=
  Function.update entries (W.position key) (data.take dLen)

end WritableBible

end ObjCSword.Sword
