import ObjCSword.Lib.Search
import ObjCSword.SwordLocaleManager

/-!
# Which locale is chosen

The locale is to be one for the language of the first preferred language that there is a locale for.
`initLocaleWithLocaledPath:` takes the first locale name that a preferred language begins with
(`chooses_iff`), and what a tag begins with need not be its language: `fil-PH` begins with `fi`. Nor
does a tag begin with every name of its language: `pt-PT` does not with `pt_BR`.
`rightChoice_iff` says when the choice is right all the same.
-/

namespace ObjCSword.SwordLocaleManager

open Sword NSString Lib.Search

/-- The language subtag of a language identifier or of a locale's name. -/
def languageSubtag (tag : String) : String :=
  .ofList (tag.toList.takeWhile fun c => c ≠ '-' ∧ c ≠ '_')

/-- A preferred language has a locale for its language. -/
def Served (available : List String) (loc : String) : Prop :=
  ∃ name ∈ available, languageSubtag name = languageSubtag loc

instance (available : List String) (loc : String) : Decidable (Served available loc) :=
  inferInstanceAs (Decidable (∃ name ∈ available, languageSubtag name = languageSubtag loc))

/-- The earliest preferred language that has a locale for its language. -/
def FirstServed (preferred available : List String) (loc : String) : Prop :=
  ∃ before after, preferred = before ++ loc :: after ∧ Served available loc ∧
    ∀ earlier ∈ before, ¬ Served available earlier

/-- What is to be chosen: a locale for the language of the earliest preferred language that has
one, and none where there is no such language. -/
structure RightChoice (preferred available : List String) (choice : Option String) : Prop where
  exact : choice.isSome = true ↔ ∃ loc ∈ preferred, Served available loc
  earliest : ∀ name, choice = some name → name ∈ available ∧
    ∃ loc, FirstServed preferred available loc ∧ languageSubtag name = languageSubtag loc

/-- The method makes a choice, out of the same locales in every locale manager. -/
def Chooses (emptyIsPrefix : Bool) (preferred available : List String) (choice : Option String) :
    Prop :=
  ∀ (σ : Type) (L : LocaleMgr σ) (aPath : String) (lManager : σ),
    L.getAvailableLocales (L.loadConfigDir lManager aPath) = available →
    initLocaleWithLocaledPath emptyIsPrefix L preferred aPath lManager =
      match choice with
      | some name => L.setDefaultLocaleName (L.loadConfigDir lManager aPath) (some name)
      | none => L.loadConfigDir lManager aPath

variable {emptyIsPrefix : Bool} {preferred available : List String}

/-! ## What the loops find -/

/-- The loops' variables, where a name was found or none. -/
def LocaleSearch.of (lang : Option String) : LocaleSearch := ⟨lang, lang.isSome⟩

theorem checkLocales_eq (emptyIsPrefix : Bool) (loc : String) (available : List String) :
    checkLocales emptyIsPrefix loc available (.of none) =
      .of (available.find? (hasAnyPrefix emptyIsPrefix loc)) := by
  induction available with
  | nil => rfl
  | cons swLoc it ih =>
    rw [checkLocales]
    by_cases h : hasAnyPrefix emptyIsPrefix loc swLoc = true
    · rw [if_pos h, List.find?_cons_of_pos h]
      rfl
    · rw [if_neg h, List.find?_cons_of_neg h, ih]

/-- The loops find the first name of the first language that begins with one. -/
theorem checkLanguages_eq (emptyIsPrefix : Bool) (preferred available : List String) :
    checkLanguages emptyIsPrefix available preferred (.of none) =
      .of (preferred.findSome? fun loc => available.find? (hasAnyPrefix emptyIsPrefix loc)) := by
  induction preferred with
  | nil => rfl
  | cons loc iter ih =>
    have hnone : ¬ (LocaleSearch.of none).haveLocale = true := Bool.false_ne_true
    rw [checkLanguages, if_neg hnone, checkLocales_eq, List.findSome?_cons]
    cases hfind : available.find? (hasAnyPrefix emptyIsPrefix loc) with
    | none => exact ih
    | some name =>
      -- the flag ends the loop at its next turn
      cases iter with
      | nil => rfl
      | cons loc' iter => exact if_pos rfl

/-- The name in the first pair, in the order of preference, of a language and a name that it begins
with. -/
def firstFound (emptyIsPrefix : Bool) (preferred available : List String) : Option String :=
  ((pairs preferred available).find? fun pair =>
    hasAnyPrefix emptyIsPrefix pair.1 pair.2).map Prod.snd

/-- **What the method does** is to set the locale that was found first. -/
theorem chooses_firstFound (emptyIsPrefix : Bool) (preferred available : List String) :
    Chooses emptyIsPrefix preferred available (firstFound emptyIsPrefix preferred available) := by
  rintro σ L aPath lManager rfl
  have hloops := checkLanguages_eq emptyIsPrefix preferred
    (L.getAvailableLocales (L.loadConfigDir lManager aPath))
  rw [findSome?_find? (hasAnyPrefix emptyIsPrefix)] at hloops
  rw [initLocaleWithLocaledPath, firstFound]
  rw [show LocaleSearch.mk none false = .of none from rfl, hloops]
  cases ((pairs preferred (L.getAvailableLocales (L.loadConfigDir lManager aPath))).find?
    fun pair => hasAnyPrefix emptyIsPrefix pair.1 pair.2).map Prod.snd with
  | none => rfl
  | some name => rfl

/-- A locale manager that remembers what it was set to. -/
def recorder (available : List String) : LocaleMgr (Option String) :=
  ⟨fun _ _ => none, fun _ => available, fun _ name => name⟩

theorem Chooses.recorded {choice : Option String}
    (h : Chooses emptyIsPrefix preferred available choice) :
    initLocaleWithLocaledPath emptyIsPrefix (recorder available) preferred "" none = choice := by
  rw [h _ (recorder available) "" none rfl]
  cases choice with
  | none => rfl
  | some name => rfl

/-- The method makes one choice: it can be read off a manager that remembers it. -/
theorem Chooses.eq_firstFound {choice : Option String}
    (h : Chooses emptyIsPrefix preferred available choice) :
    choice = firstFound emptyIsPrefix preferred available := by
  rw [← h.recorded, (chooses_firstFound emptyIsPrefix preferred available).recorded]

/-! ## When the choice is right -/

theorem firstServed_iff {loc : String} : FirstServed preferred available loc ↔
    preferred.find? (fun loc => decide (Served available loc)) = some loc := by
  rw [List.find?_eq_some_iff_append, decide_eq_true_eq]
  constructor
  · rintro ⟨before, after, hsplit, hserved, hbefore⟩
    exact ⟨hserved, before, after, hsplit, fun earlier h => by simpa using hbefore earlier h⟩
  · rintro ⟨hserved, before, after, hsplit, hbefore⟩
    exact ⟨before, after, hsplit, hserved, fun earlier h => by simpa using hbefore earlier h⟩

theorem FirstServed.unique {loc loc' : String} (h : FirstServed preferred available loc)
    (h' : FirstServed preferred available loc') : loc = loc' :=
  Option.some.inj ((firstServed_iff.mp h).symm.trans (firstServed_iff.mp h'))

theorem exists_firstServed (h : ∃ loc ∈ preferred, Served available loc) :
    ∃ loc, FirstServed preferred available loc := by
  obtain ⟨loc, hloc, hserved⟩ := h
  cases hfind : preferred.find? (fun loc => decide (Served available loc)) with
  | none =>
    have hno := List.find?_eq_none.mp hfind loc hloc
    exact absurd (decide_eq_true hserved) hno
  | some first => exact ⟨first, firstServed_iff.mpr hfind⟩

/-- The leading parts fit. Where a preferred language has a locale for its language, a name of the
language of the first such is what a preferred language begins with, and before that, in the order
of preference, no preferred language begins with a name of another language. Where there is no such
language, no preferred language begins with a name. -/
def LeadingPartsFit (emptyIsPrefix : Bool) (preferred available : List String) : Prop :=
  (∀ loc, FirstServed preferred available loc →
    ∃ before pair after, pairs preferred available = before ++ pair :: after ∧
      hasAnyPrefix emptyIsPrefix pair.1 pair.2 = true ∧
      languageSubtag pair.2 = languageSubtag loc ∧
      ∀ other ∈ before, hasAnyPrefix emptyIsPrefix other.1 other.2 = true →
        languageSubtag other.2 = languageSubtag loc) ∧
  ((∀ loc ∈ preferred, ¬ Served available loc) →
    ∀ loc ∈ preferred, ∀ name ∈ available, ¬ hasAnyPrefix emptyIsPrefix loc name = true)

/-- Where there is a first preferred language with a locale, the choice is right if it is of that
language. -/
theorem rightChoice_of_firstServed {loc : String} (hfirst : FirstServed preferred available loc) :
    RightChoice preferred available (firstFound emptyIsPrefix preferred available) ↔
      ∃ pair, (pairs preferred available).find?
          (fun pair => hasAnyPrefix emptyIsPrefix pair.1 pair.2) = some pair ∧
        languageSubtag pair.2 = languageSubtag loc := by
  have hserved : ∃ loc ∈ preferred, Served available loc := by
    obtain ⟨before, after, rfl, hserved, -⟩ := hfirst
    exact ⟨loc, by simp, hserved⟩
  constructor
  · intro h
    obtain ⟨name, hname⟩ := Option.isSome_iff_exists.mp (h.exact.mpr hserved)
    obtain ⟨-, loc', hfirst', hlanguage⟩ := h.earliest name hname
    obtain ⟨pair, hfind, rfl⟩ := Option.map_eq_some_iff.mp hname
    exact ⟨pair, hfind, by rw [hlanguage, hfirst'.unique hfirst]⟩
  · rintro ⟨pair, hfind, hlanguage⟩
    have hname : firstFound emptyIsPrefix preferred available = some pair.2 := by
      rw [firstFound, hfind]
      rfl
    refine ⟨iff_of_true (by rw [hname]; rfl) hserved, fun name h => ?_⟩
    obtain rfl : pair.2 = name := Option.some.inj (hname.symm.trans h)
    exact ⟨(mem_pairs.mp (List.mem_of_find?_eq_some hfind)).2, loc, hfirst, hlanguage⟩

/-- Where there is none, the choice is right if nothing is found. -/
theorem rightChoice_of_unserved (h : ∀ loc ∈ preferred, ¬ Served available loc) :
    RightChoice preferred available (firstFound emptyIsPrefix preferred available) ↔
      ∀ loc ∈ preferred, ∀ name ∈ available, ¬ hasAnyPrefix emptyIsPrefix loc name = true := by
  have hnone : firstFound emptyIsPrefix preferred available = none ↔
      ∀ loc ∈ preferred, ∀ name ∈ available, ¬ hasAnyPrefix emptyIsPrefix loc name = true := by
    rw [firstFound, Option.map_eq_none_iff, List.find?_eq_none]
    exact ⟨fun hno loc hloc name hname => hno (loc, name) (mem_pairs.mpr ⟨hloc, hname⟩),
      fun hno pair hpair =>
        hno pair.1 (mem_pairs.mp hpair).1 pair.2 (mem_pairs.mp hpair).2⟩
  rw [← hnone]
  constructor
  · intro hright
    cases hfound : firstFound emptyIsPrefix preferred available with
    | none => rfl
    | some name =>
      rw [hfound] at hright
      obtain ⟨loc, hloc, hserved⟩ := hright.exact.mp rfl
      exact absurd hserved (h loc hloc)
  · intro hfound
    rw [hfound]
    exact ⟨iff_of_false Bool.false_ne_true fun ⟨loc, hloc, hserved⟩ => h loc hloc hserved, nofun⟩

/-- **The choice is right exactly when the leading parts fit.** -/
theorem rightChoice_iff (emptyIsPrefix : Bool) (preferred available : List String) :
    (∃ choice, Chooses emptyIsPrefix preferred available choice ∧
      RightChoice preferred available choice) ↔
      LeadingPartsFit emptyIsPrefix preferred available := by
  have hchoice : (∃ choice, Chooses emptyIsPrefix preferred available choice ∧
      RightChoice preferred available choice) ↔
        RightChoice preferred available (firstFound emptyIsPrefix preferred available) := by
    constructor
    · rintro ⟨choice, hchooses, hright⟩
      rwa [← hchooses.eq_firstFound]
    · exact fun hright => ⟨_, chooses_firstFound emptyIsPrefix preferred available, hright⟩
  rw [hchoice, LeadingPartsFit]
  by_cases hserved : ∃ loc ∈ preferred, Served available loc
  · obtain ⟨loc, hfirst⟩ := exists_firstServed hserved
    have hsome : ¬ ∀ loc ∈ preferred, ¬ Served available loc :=
      fun hno => hserved.elim fun loc h => hno loc h.1 h.2
    rw [rightChoice_of_firstServed hfirst, find?_holds_iff]
    constructor
    · intro hfits
      refine ⟨fun loc' hfirst' => ?_, fun hno => absurd hno hsome⟩
      rwa [hfirst'.unique hfirst]
    · exact fun hfits => hfits.1 loc hfirst
  · have hnone : ∀ loc ∈ preferred, ¬ Served available loc :=
      fun loc hloc h => hserved ⟨loc, hloc, h⟩
    rw [rightChoice_of_unserved hnone]
    constructor
    · refine fun hno => ⟨fun loc hfirst => ?_, fun _ => hno⟩
      obtain ⟨before, after, rfl, h, -⟩ := hfirst
      exact absurd h (hnone loc (by simp))
    · exact fun hfits => hfits.2 hnone

/-- Who prefers Filipino, then English, is given Finnish. -/
theorem finnish_for_filipino :
    Chooses false ["fil-PH", "en-US"] ["de", "en", "fi"] (some "fi") ∧
      ¬ RightChoice ["fil-PH", "en-US"] ["de", "en", "fi"] (some "fi") := by
  have hfound : firstFound false ["fil-PH", "en-US"] ["de", "en", "fi"] = some "fi" := by decide
  have hfirst : FirstServed ["fil-PH", "en-US"] ["de", "en", "fi"] "en-US" :=
    firstServed_iff.mpr (by decide)
  refine ⟨?_, fun hright => ?_⟩
  · rw [← hfound]
    exact chooses_firstFound false _ _
  · obtain ⟨-, loc, hloc, hlanguage⟩ := hright.earliest "fi" rfl
    rw [hloc.unique hfirst] at hlanguage
    exact absurd hlanguage (by decide)

end ObjCSword.SwordLocaleManager
