import ObjCSword.Engine.Module

/-!
# Modules as the engine's manager keeps them

A `sword::SWMgr` owns its modules and the filters that were added to them. The wrapper sees both by
their addresses.
-/

namespace ObjCSword.Sword

/-- `SWTextMarkup`: the formats the wrapper tells apart, and the rest. -/
inductive SWTextMarkup where
  | plain
  | gbf
  | thml
  | osis
  | tei
  | other
deriving DecidableEq, Repr

/-- The classes of filters the wrapper makes. -/
inductive FilterClass where
  | OSISHTMLHREF
  | OSISPlain
  | ThMLHTMLHREF
  | ThMLPlain
  | GBFHTMLHREF
  | GBFPlain
  | TEIHTMLHREF
  | TEIPlain
deriving DecidableEq, Repr

/-- The markup a class of filters reads. -/
def FilterClass.markup : FilterClass → SWTextMarkup
  | OSISHTMLHREF | OSISPlain => .osis
  | ThMLHTMLHREF | ThMLPlain => .thml
  | GBFHTMLHREF | GBFPlain => .gbf
  | TEIHTMLHREF | TEIPlain => .tei

/-- Whether a class of filters writes plain text, or else markup to show. -/
def FilterClass.writesPlain : FilterClass → Bool
  | OSISPlain | ThMLPlain | GBFPlain | TEIPlain => true
  | OSISHTMLHREF | ThMLHTMLHREF | GBFHTMLHREF | TEIHTMLHREF => false

/-- A filter, at its address. -/
structure SWFilter where
  address : Nat
  cls : FilterClass
deriving DecidableEq, Repr

/-- A module that a manager keeps: what is fixed of it, and its filters. -/
structure ManagedModule (Key : Type) extends SWModule Key where
  name : String
  type : String
  markup : SWTextMarkup
  renderFilters : List SWFilter
  stripFilters : List SWFilter

namespace ManagedModule

variable {Key : Type}

def addRenderFilter (m : ManagedModule Key) (filter : SWFilter) : ManagedModule Key :=
  { m with renderFilters := m.renderFilters ++ [filter] }

def removeRenderFilter (m : ManagedModule Key) (filter : SWFilter) : ManagedModule Key :=
  { m with renderFilters := m.renderFilters.filter fun other => other.address ≠ filter.address }

def addStripFilter (m : ManagedModule Key) (filter : SWFilter) : ManagedModule Key :=
  { m with stripFilters := m.stripFilters ++ [filter] }

end ManagedModule

end ObjCSword.Sword
