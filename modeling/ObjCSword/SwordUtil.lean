import ObjCSword.Foundation.NSDictionary
import ObjCSword.Foundation.NSURL

/-!
# Decoding links and padding Strong's numbers

`+[SwordUtil dictionaryFromUrl:]` (SwordUtil.m) turns the two kinds of links in rendered module
texts into a dictionary of attributes: `sword://module/reference`, and the `passagestudy.jsp` links
the engine's filters write, which carry their data as query parameters. `+padStrongsNumbers:` writes
the Strong's numbers of a list of lemmas with five digits each.
-/

namespace ObjCSword

def ATTRTYPE_TYPE : String := "type"
def ATTRTYPE_PASSAGE : String := "passage"
def ATTRTYPE_MODULE : String := "modulename"
def ATTRTYPE_ACTION : String := "action"
def ATTRTYPE_VALUE : String := "value"

/-- What `dictionary[key] = nil` does, which depends on the Foundation the program is linked with:
it raises, or it removes the key. -/
inductive NilStore where
  | raises
  | removes
deriving DecidableEq, Repr

/-- `dictionary[key] = value`; `none` is the exception. -/
def NilStore.set (nil : NilStore) (dictionary : Dictionary String) (key : String) :
    Option String → Option (Dictionary String)
  | some value => some (dictionary.insert key value)
  | none =>
    match nil with
    | .raises => none
    | .removes => some (dictionary.erase key)

/-- Reading after `dictionary[key] = value`, `nil` or not. -/
theorem NilStore.lookup_set {nil : NilStore} {dictionary ret : Dictionary String} {key : String}
    {value : Option String} (h : nil.set dictionary key value = some ret) (key' : String) :
    AList.lookup key' ret = if key' = key then value else AList.lookup key' dictionary := by
  cases value with
  | some value =>
    cases h
    exact Dictionary.lookup_insert dictionary key key' value
  | none =>
    cases nil with
    | raises => cases h
    | removes =>
      cases h
      exact Dictionary.lookup_erase dictionary key key'

/-- The local variables of the `passagestudy.jsp` branch, at their initial values. -/
@[ext]
structure LinkParameters where
  type : String := "x"
  moduleName : String := ""
  passage : String := ""
  value : String := "1"
  action : String := ""
deriving DecidableEq, Repr

namespace SwordUtil

open NSString

/-- `[entry componentsSeparatedByString:@"="][1]`, for an entry that holds a `=`. -/
def valueOf (entry : String) : String :=
  (componentsSeparatedByString entry '=').getD 1 ""

/-- One turn of the loop over the query's entries. -/
def readEntry (p : LinkParameters) (entry : String) : LinkParameters :=
  if hasPrefix entry "type=" then { p with type := valueOf entry }
  else if hasPrefix entry "module=" then { p with moduleName := valueOf entry }
  else if hasPrefix entry "passage=" then { p with passage := valueOf entry }
  else if hasPrefix entry "action=" then { p with action := valueOf entry }
  else if hasPrefix entry "value=" then { p with value := valueOf entry }
  else p

/-- `dictionaryFromUrl:`. -/
def dictionaryFromUrl (nil : NilStore) (aURL : NSURL) : Option (Dictionary String) := do
  let ret : Dictionary String := ∅
  if aURL.scheme = "sword" then
    -- in this case host is the module and path the reference
    let ret ← nil.set ret ATTRTYPE_MODULE aURL.host
    let ret ← nil.set ret ATTRTYPE_VALUE
      ((aURL.path.bind stringByReplacingPercentEscapes).map
        fun path => stringByReplacingOccurrences path "/" "")
    let ret ← nil.set ret ATTRTYPE_TYPE "scriptRef"
    nil.set ret ATTRTYPE_ACTION "showRef"
  else if aURL.scheme = "applewebdata" then
    if aURL.path.map lastPathComponent = some "passagestudy.jsp" then
      let data := (aURL.query.map fun query => componentsSeparatedByString query '&').getD []
      let p := data.foldl readEntry {}
      let ret ← nil.set ret ATTRTYPE_MODULE (stringByReplacingPercentEscapes p.moduleName)
      let ret ← nil.set ret ATTRTYPE_PASSAGE (stringByReplacingPercentEscapes p.passage)
      let ret ← nil.set ret ATTRTYPE_VALUE (stringByReplacingPercentEscapes p.value)
      let ret ← nil.set ret ATTRTYPE_ACTION (stringByReplacingPercentEscapes p.action)
      nil.set ret ATTRTYPE_TYPE (stringByReplacingPercentEscapes p.type)
    else some ret
  else some ret

/-! ## Strong's numbers -/

/-- `leftPadStrongsFormat:`. -/
def leftPadStrongsFormat (unpadded : String) : String := formatZeroPadded 5 (intValue unpadded)

/-- One turn of the loop of `padStrongsNumber:` over the codes of a lemma. -/
def padStrongsKey (letter : Char) (key : String) : Option String :=
  let key := stringByReplacingOccurrences key " " ""
  match componentsSeparatedByString key letter with
  | [_, keyComp] => some (.ofList [letter] ++ leftPadStrongsFormat keyComp)
  | _ => none

/-- `padStrongsNumber:`. The letter is looked for at the front of the lemma only. -/
def padStrongsNumber (unpaddedNumber : String) : List String :=
  let letter : Option Char := none
  let letter := if hasPrefix unpaddedNumber "H" then some 'H' else letter
  let letter := if hasPrefix unpaddedNumber "G" then some 'G' else letter
  match letter with
  | some letter =>
    (componentsSeparatedByString unpaddedNumber ' ').filterMap (padStrongsKey letter)
  | none => [unpaddedNumber]

/-- `padStrongsNumbers:`. -/
def padStrongsNumbers (unpaddedNumbers : List String) : List String :=
  unpaddedNumbers.flatMap padStrongsNumber

end SwordUtil

end ObjCSword
