import ObjCSword.Engine.Manager

/-!
# Filters

The subclasses of `SwordFilter` (SwordFilter.mm) differ in the engine's filter that they wrap.
`DefaultFilterProvider` (DefaultFilterProvider.mm) says which of them serves which markup.
-/

namespace ObjCSword

open Sword

def SwordOsisHtmlRefFilter : FilterClass := .OSISHTMLHREF
def SwordOsisPlainFilter : FilterClass := .OSISPlain
def SwordThmlHtmlFilter : FilterClass := .ThMLHTMLHREF
def SwordThmlPlainFilter : FilterClass := .ThMLPlain
-- the GBF classes allocate the ThML filters
def SwordGbfHtmlFilter : FilterClass := .ThMLHTMLHREF
def SwordGbfPlainFilter : FilterClass := .ThMLPlain
def SwordTeiHtmlFilter : FilterClass := .TEIHTMLHREF
def SwordTeiPlainFilter : FilterClass := .TEIPlain

/-- `FilterProvider`: the filter of each new object. -/
structure FilterProvider where
  newOsisRenderFilter : FilterClass
  newOsisPlainFilter : FilterClass
  newGbfRenderFilter : FilterClass
  newGbfPlainFilter : FilterClass
  newThmlRenderFilter : FilterClass
  newThmlPlainFilter : FilterClass
  newTeiRenderFilter : FilterClass
  newTeiPlainFilter : FilterClass

def DefaultFilterProvider : FilterProvider where
  newOsisRenderFilter := SwordOsisHtmlRefFilter
  newOsisPlainFilter := SwordOsisPlainFilter
  newGbfRenderFilter := SwordGbfHtmlFilter
  newGbfPlainFilter := SwordGbfPlainFilter
  newThmlRenderFilter := SwordThmlHtmlFilter
  newThmlPlainFilter := SwordThmlPlainFilter
  newTeiRenderFilter := SwordTeiHtmlFilter
  newTeiPlainFilter := SwordTeiPlainFilter

end ObjCSword
