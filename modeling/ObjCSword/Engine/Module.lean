import ObjCSword.Foundation.NSDictionary

/-!
# The engine, as far as the wrapper calls it

The sword engine is a library of its own. What the wrapper asks of it stands here as records of
operations over a type of keys: the records are parameters of everything above, and what a result
needs to know of an operation it names as a hypothesis. Each operation stands under the engine's
word for it.

A key answers for its own position only; a module's text at a key is a function of that key, since
nothing the wrapper does through these calls writes to a module's content.
-/

namespace ObjCSword.Sword

/-- `AttributeTypeList`: the values by attribute type, entry and attribute. -/
abbrev AttributeTypeList := Dictionary (Dictionary (Dictionary String))

/-- `attributes[type][entry][name].c_str()`: the maps make a missing entry on the way, so an
attribute that is not there reads as the empty string. -/
def AttributeTypeList.value (attributes : AttributeTypeList) (type entry name : String) :
    String :=
  let entries := (AList.lookup type attributes).getD ∅
  let values := (AList.lookup entry entries).getD ∅
  (AList.lookup name values).getD ""

/-- What is asked of any key. A null text is `none`. -/
structure SWKey (Key : Type) where
  setText : Key → Option String → Key
  getText : Key → String

/-- What is asked of a verse key. `init` is a default constructed one, and `parseVerseList` answers
with the texts of the verses in the order in which the list is walked. -/
structure VerseKey (Key : Type) extends SWKey Key where
  init : Key
  setVersificationSystem : Key → String → Key
  setIntros : Key → Bool → Key
  getTestament : Key → Int
  getBook : Key → Int
  getVerse : Key → Int
  setTestament : Key → Int → Key
  setBook : Key → Int → Key
  setChapter : Key → Int → Key
  setVerse : Key → Int → Key
  increment : Key → Key
  /-- The text to parse, the default position, and whether ranges are expanded. -/
  parseVerseList : Key → Option String → String → Bool → List String

/-- What else is asked of a verse key: about the book and the chapter it stands in. -/
structure VersePosition (Key : Type) where
  getBookName : Key → String
  getChapterMax : Key → Int
  getVerseMax : Key → Int

/-- The largest numbers a verse key knows: of a book in its testament, and of a testament. -/
structure VerseLimits (Key : Type) where
  getBookMax : Key → Int
  getTestamentMax : Key → Int

/-- What is asked of a module. `error` is the error pending after the module was put on a key, the
two texts are the strings made of what the engine answers, and `entryAttributes` is what rendering
at a key leaves in the module's attribute map. `globalOption` is asked of the module's manager. -/
structure SWModule (Key : Type) extends SWKey Key where
  createKey : Key
  error : Key → Bool
  renderText : Key → Option String
  stripText : Key → Option String
  entryAttributes : Key → AttributeTypeList
  getConfigEntry : String → Option String
  has : String → String → Bool
  globalOption : String → Bool

/-- A Bible: a module whose keys are verse keys. -/
structure BibleModule (Key : Type) extends VerseKey Key, SWModule Key

end ObjCSword.Sword
