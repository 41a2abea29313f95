import ObjCSword.Foundation.NSString

/-!
# Tree keys

What `SwordBook` asks of a general book's module and of its key, a `sword::TreeKeyIdx`. The module
has one such key, and all of these calls move it. Key texts are C strings in the module's encoding.
-/

namespace ObjCSword.Sword

/-- A module whose key is a tree key. `setKey` is the module's, with a null text as `none`. -/
structure TreeModule (Key : Type) where
  isUnicode : Bool
  setKey : Key → Option CString → Key
  getText : Key → CString
  hasChildren : Key → Bool
  firstChild : Key → Key
  /-- Whether there was a sibling to go to, and the key then. -/
  nextSibling : Key → Bool × Key

end ObjCSword.Sword
