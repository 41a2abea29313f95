import ObjCSword.Engine.Manager
import ObjCSword.Foundation.NSString

/-!
# What the filters of a module do

A module's render filters and its strip filters each rewrite a buffer, one after the other: the raw
text of the entry the module stands on, or a text that is given.
-/

namespace ObjCSword.Sword

open NSString

/-- The buffer after some filters. What one of them does is its `processText`, at a key. -/
def runFilters {Key : Type} (processText : SWFilter → Key → CString → CString) (key : Key)
    (filters : List SWFilter) (buf : CString) : CString :=
  filters.foldl (fun buf filter => processText filter key buf) buf

/-- A module of which the raw entries are known, and what its filters do. -/
structure FilteredModule (Key : Type) extends ManagedModule Key where
  getRawEntry : Key → CString
  processText : SWFilter → Key → CString → CString
  /-- The two texts of a module are what the filters leave of the raw entry. -/
  renderText_eq : ∀ key,
    renderText key = stringOfAnswer (runFilters processText key renderFilters (getRawEntry key))
  stripText_eq : ∀ key,
    stripText key = stringOfAnswer (runFilters processText key stripFilters (getRawEntry key))

namespace FilteredModule

variable {Key : Type}

/-- `renderText(buf)` on a module that stands on a key; a null buffer is the entry there. -/
def renderTextOf (M : FilteredModule Key) (key : Key) (buf : Option CString) : CString :=
  runFilters M.processText key M.renderFilters (buf.getD (M.getRawEntry key))

end FilteredModule

end ObjCSword.Sword
