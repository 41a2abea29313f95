import ObjCSword.Foundation.NSString

/-!
# Choosing a locale

`SwordLocaleManager` (SwordLocaleManager.mm) sets the engine's locale by the languages that the user
prefers: the first of them that begins with the name of a locale there is.
-/

namespace ObjCSword

open NSString

/-- What is asked of the engine's locale manager. A null name is `none`. -/
structure Sword.LocaleMgr (σ : Type) where
  loadConfigDir : σ → String → σ
  getAvailableLocales : σ → List String
  setDefaultLocaleName : σ → Option String → σ

namespace SwordLocaleManager

open Sword

variable {σ : Type}

/-- The variables of the loops of `initLocaleWithLocaledPath:`. -/
structure LocaleSearch where
  lang : Option String
  haveLocale : Bool

/-- The inner loop, over the locales there are: check if this locale is available in SWORD. -/
def checkLocales (emptyIsPrefix : Bool) (loc : String) :
    List String → LocaleSearch → LocaleSearch
  | [], search => search
  | swLoc :: it, search =>
    if hasAnyPrefix emptyIsPrefix loc swLoc then { lang := some swLoc, haveLocale := true }
    else checkLocales emptyIsPrefix loc it search

/-- The outer loop, for every language. -/
def checkLanguages (emptyIsPrefix : Bool) (localeList : List String) :
    List String → LocaleSearch → LocaleSearch
  | [], search => search
  | loc :: iter, search =>
    if search.haveLocale then search
    else
      checkLanguages emptyIsPrefix localeList iter
        (checkLocales emptyIsPrefix loc localeList search)

/-- `initLocaleWithLocaledPath:`. -/
def initLocaleWithLocaledPath (emptyIsPrefix : Bool) (L : LocaleMgr σ)
    (preferredLanguages : List String) (aPath : String) (lManager : σ) : σ :=
  let lManager := L.loadConfigDir lManager aPath
  let localeList := L.getAvailableLocales lManager
  let search := checkLanguages emptyIsPrefix localeList preferredLanguages ⟨none, false⟩
  if search.haveLocale then L.setDefaultLocaleName lManager search.lang else lManager

end SwordLocaleManager

end ObjCSword
