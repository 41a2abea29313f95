import ObjCSword.Engine.TreeKey
import ObjCSword.Foundation.NSDictionary

/-!
# General books

`SwordBook` (SwordBook.mm) answers with the entries of a book's tree: for a node, its key and the
keys of its children. The answers are kept for ever in `_contentsBuffer`.
-/

namespace ObjCSword

open Sword NSString

def GenBookRootKey : String := "root"

/-- An entry of the tree: a node's key, and the keys of its children. -/
structure SwordModuleTreeEntry where
  key : String
  content : List String
deriving DecidableEq, Repr

/-- The part of the object that calls change: the module's key, and the entries kept so far. -/
structure SwordBook (Key : Type) where
  key : Key
  contentsBuffer : Dictionary SwordModuleTreeEntry

namespace SwordBook

variable {Key : Type}

/-- A key text as a string: read as UTF-8, or else as ISO Latin 1. -/
def stringOfKeyText (text : CString) : String :=
  (stringWithUTF8String text).getD (stringWithLatin1 text)

/-- The C string of a key: in the module's encoding, which may have none for it. -/
def keyStr (T : TreeModule Key) (treeKey : String) : Option CString :=
  if T.isUnicode then some (UTF8String treeKey) else cStringUsingLatin1 treeKey

/-- The loop over the siblings, `do … while(treeKey->nextSibling())`. -/
def siblings (T : TreeModule Key) : Nat → Key → List String → List String × Key
  | 0, treeKey, c => (c, treeKey)
  | fuel + 1, treeKey, c =>
    let subName := stringOfKeyText (T.getText treeKey)
    let c := c ++ [subName]
    let (more, treeKey) := T.nextSibling treeKey
    if more then siblings T fuel treeKey c else (c, treeKey)

/-- `_treeEntryForKey:`. The key that is walked along the children is the module's. -/
def entryForTreeKey (T : TreeModule Key) (fuel : Nat) (treeKey : Key) :
    SwordModuleTreeEntry × Key :=
  let treeNodeName := T.getText treeKey
  let nName := if treeNodeName.length = 0 then GenBookRootKey else stringOfKeyText treeNodeName
  -- if this node has children, walk them
  let (c, treeKey) :=
    if T.hasChildren treeKey then siblings T fuel (T.firstChild treeKey) [] else ([], treeKey)
  (⟨nName, c⟩, treeKey)

/-- `treeEntryForKey:`. -/
def treeEntryForKey (T : TreeModule Key) (fuel : Nat) (book : SwordBook Key)
    (treeKey : Option String) : SwordModuleTreeEntry × SwordBook Key :=
  match treeKey with
  | none =>
    match AList.lookup GenBookRootKey book.contentsBuffer with
    | some ret => (ret, book)
    | none =>
      let (ret, key) := entryForTreeKey T fuel book.key
      -- add to content
      (ret, { key := key, contentsBuffer := book.contentsBuffer.insert GenBookRootKey ret })
  | some treeKey =>
    match AList.lookup treeKey book.contentsBuffer with
    | some ret => (ret, book)
    | none =>
      -- position module
      let key := T.setKey book.key (keyStr T treeKey)
      let (ret, key) := entryForTreeKey T fuel key
      -- add to content
      (ret, { key := key, contentsBuffer := book.contentsBuffer.insert treeKey ret })

end SwordBook

end ObjCSword
