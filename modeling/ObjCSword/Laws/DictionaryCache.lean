import ObjCSword.Lib.Run
import ObjCSword.SwordDictionary

/-!
# The keys of an installed dictionary

A new object takes a dictionary's keys from the cache file of its name if that holds any, and from
the module otherwise, and then it writes them there. So it lists the module's keys exactly when the
file fits the module (`allKeys_eq_iff`). Listing makes the file fit, uninstalling leaves it behind,
and nothing else ever writes or removes it: `listed_keys_iff` says that the keys are right all along
a run exactly when no module is installed under a name whose file holds the keys of another.
-/

namespace ObjCSword

open Lib.Run SwordDictionary

section Keys

variable (capitalizedString : String → String) (defaultAppSupportPath : String)

/-- The keys of a module as they are to be listed: all of them, in order, capitalised. Bytes that
are no text in the module's encoding have no capitalised form, and `readKeys` skips them with a log
message. -/
def Lexicon.capitalizedKeys (aModule : Lexicon) : List String :=
  aModule.keys.filterMap fun key => (lexiconString aModule.isUnicode key).map capitalizedString

namespace SwordDictionary

/-- The loop over the engine's keys lists all of them, after whatever was listed before. -/
theorem foldl_addKey (isUnicode : Bool) (keys : List CString) (arr : List String) :
    keys.foldl (fun arr key => addKey capitalizedString isUnicode arr (some key)) arr =
      arr ++ keys.filterMap fun key => (lexiconString isUnicode key).map capitalizedString := by
  induction keys generalizing arr with
  | nil => exact (List.append_nil arr).symm
  | cons key keys ih =>
    rw [List.foldl_cons, ih, addKey, Option.bind_some]
    cases hkey : lexiconString isUnicode key with
    | none => rw [List.filterMap_cons_none (by rw [hkey]; rfl)]
    | some keyText =>
      rw [List.filterMap_cons_some (by rw [hkey]; rfl), List.append_assoc]
      rfl

/-- What `readKeys` takes from the engine. -/
theorem forEach_addKey (aModule : Lexicon) :
    (Lib.Cursor.ofList aModule.keys).top.forEach (addKey capitalizedString aModule.isUnicode)
        ((Lib.Cursor.ofList aModule.keys).elems.length + 1) [] =
      aModule.capitalizedKeys capitalizedString := by
  rw [Lib.Cursor.forEach_top _ _ _ _ (Nat.lt_succ_self _)]
  exact (foldl_addKey capitalizedString aModule.isUnicode aModule.keys []).trans
    (List.nil_append _)

/-- What the cache file of a name holds; nothing where there is no file. -/
def cached (files : Dictionary (List String)) (name : String) : List String :=
  (AList.lookup (cachePath defaultAppSupportPath name) files).getD []

theorem readFromCache_eq (files : Dictionary (List String)) (self : SwordDictionary) :
    readFromCache defaultAppSupportPath files self =
      { self with keys := some (cached defaultAppSupportPath files self.name) } := by
  rw [readFromCache, cached]
  cases AList.lookup (cachePath defaultAppSupportPath self.name) files with
  | none => rfl
  | some data => rfl

/-- What a new object does when it is asked for its keys: it lists the cached ones and writes
nothing, or where nothing is cached it lists the module's and writes these. -/
theorem allKeys_new (files : Dictionary (List String)) (name : String) (aModule : Lexicon) :
    let out := allKeys capitalizedString defaultAppSupportPath files (initWithSWModule name aModule)
    let keys := aModule.capitalizedKeys capitalizedString
    (out.1 = if cached defaultAppSupportPath files name = [] then keys
      else cached defaultAppSupportPath files name) ∧
      out.2.2 = if cached defaultAppSupportPath files name = [] then
        files.insert (cachePath defaultAppSupportPath name) keys else files := by
  have hloop := forEach_addKey capitalizedString aModule
  simp only [allKeys, initWithSWModule, readKeys, readFromCache_eq, if_true, Option.getD_some,
    List.length_eq_zero_iff]
  by_cases hempty : cached defaultAppSupportPath files name = []
  · simp only [if_pos hempty, writeToCache, Option.getD_some, hloop, and_self]
  · simp only [if_neg hempty, Option.getD_some, and_self]

/-- The cache file of a name fits a module: it holds nothing, or the module's keys. -/
def CacheFits (files : Dictionary (List String)) (name : String) (aModule : Lexicon) : Prop :=
  cached defaultAppSupportPath files name = [] ∨
    cached defaultAppSupportPath files name = aModule.capitalizedKeys capitalizedString

/-- **One listing.** A new object lists the keys of its module exactly when the cache file fits
it. -/
theorem allKeys_eq_iff (files : Dictionary (List String)) (name : String) (aModule : Lexicon) :
    (allKeys capitalizedString defaultAppSupportPath files (initWithSWModule name aModule)).1 =
        aModule.capitalizedKeys capitalizedString ↔
      CacheFits capitalizedString defaultAppSupportPath files name aModule := by
  rw [(allKeys_new capitalizedString defaultAppSupportPath files name aModule).1, CacheFits]
  by_cases h : cached defaultAppSupportPath files name = []
  · rw [if_pos h]
    exact ⟨fun _ => Or.inl h, fun _ => rfl⟩
  · rw [if_neg h]
    exact ⟨Or.inr, fun hfits => hfits.resolve_left h⟩

end SwordDictionary

end Keys

/-! ## Runs -/

namespace Library

section Runs

variable (capitalizedString : String → String) (defaultAppSupportPath : String)

/-- Whatever is installed, a new object lists its keys, and counts as many. -/
def ListsInstalled (library : Library) : Prop :=
  ∀ name aModule, AList.lookup name library.installed = some aModule →
    (allKeys capitalizedString defaultAppSupportPath library.files
        (initWithSWModule name aModule)).1 = aModule.capitalizedKeys capitalizedString ∧
      (entryCount capitalizedString defaultAppSupportPath library.files
        (initWithSWModule name aModule)).1 =
          (aModule.capitalizedKeys capitalizedString).length

/-- A call installs no module under a name whose cache file holds other keys. -/
def InstallsFitting (library : Library) : LibraryCall → Prop
  | .installModule name aModule =>
    CacheFits capitalizedString defaultAppSupportPath library.files name aModule
  | _ => True

theorem cachePath_inj {name name' : String}
    (h : cachePath defaultAppSupportPath name = cachePath defaultAppSupportPath name') :
    name = name' := by
  have hchars := congrArg String.toList h
  simp only [cachePath, String.toList_append, List.append_cancel_left_eq] at hchars
  exact String.toList_inj.mp hchars

/-- The lists are right exactly when the cache files fit what is installed. -/
theorem listsInstalled_iff (library : Library) :
    ListsInstalled capitalizedString defaultAppSupportPath library ↔
      ∀ name aModule, AList.lookup name library.installed = some aModule →
        CacheFits capitalizedString defaultAppSupportPath library.files name aModule := by
  constructor
  · intro h name aModule hinstalled
    exact (allKeys_eq_iff capitalizedString defaultAppSupportPath _ _ _).mp
      (h name aModule hinstalled).1
  · intro h name aModule hinstalled
    have hkeys := (allKeys_eq_iff capitalizedString defaultAppSupportPath _ _ _).mpr
      (h name aModule hinstalled)
    exact ⟨hkeys, congrArg List.length hkeys⟩

/-- Listing a module whose file fits leaves every fitting file fitting. -/
theorem cacheFits_allKeys {library : Library} {name name' : String} {aModule aModule' : Lexicon}
    (hsame : name' = name → aModule' = aModule)
    (h : CacheFits capitalizedString defaultAppSupportPath library.files name' aModule') :
    CacheFits capitalizedString defaultAppSupportPath
      (allKeys capitalizedString defaultAppSupportPath library.files
        (initWithSWModule name aModule)).2.2 name' aModule' := by
  rw [(allKeys_new capitalizedString defaultAppSupportPath library.files name aModule).2]
  by_cases hempty : cached defaultAppSupportPath library.files name = []
  · rw [if_pos hempty]
    by_cases hname : name' = name
    · subst hname
      rw [hsame rfl, CacheFits, cached, Dictionary.lookup_insert, if_pos rfl]
      exact Or.inr rfl
    · have hpath : cachePath defaultAppSupportPath name' ≠ cachePath defaultAppSupportPath name :=
        fun heq => hname (cachePath_inj defaultAppSupportPath heq)
      rw [CacheFits, cached, Dictionary.lookup_insert, if_neg hpath]
      exact h
  · rw [if_neg hempty]
    exact h

/-- A listing keeps the lists of everything that is installed right. -/
theorem listsInstalled_allKeys {library : Library} {name : String}
    (h : ListsInstalled capitalizedString defaultAppSupportPath library) :
    ListsInstalled capitalizedString defaultAppSupportPath
      (library.step capitalizedString defaultAppSupportPath (.allKeys name)) := by
  rw [listsInstalled_iff] at h ⊢
  cases hinstalled : AList.lookup name library.installed with
  | none =>
    simp only [step, hinstalled]
    exact h
  | some aModule =>
    simp only [step, hinstalled]
    intro name' aModule' hinstalled'
    refine cacheFits_allKeys capitalizedString defaultAppSupportPath ?_
      (h name' aModule' hinstalled')
    rintro rfl
    exact Option.some.inj (hinstalled'.symm.trans hinstalled)

/-- **One call.** Where all lists are right, they are right after a call exactly when the call
installs no module under a name whose file holds other keys. -/
theorem listsInstalled_step_iff {library : Library}
    (h : ListsInstalled capitalizedString defaultAppSupportPath library) (call : LibraryCall) :
    ListsInstalled capitalizedString defaultAppSupportPath
        (library.step capitalizedString defaultAppSupportPath call) ↔
      InstallsFitting capitalizedString defaultAppSupportPath library call := by
  cases call with
  | installModule name aModule =>
    rw [listsInstalled_iff] at h ⊢
    constructor
    · intro hlists
      exact hlists name aModule (by rw [step, Dictionary.lookup_insert, if_pos rfl])
    · intro hfits name' aModule' hinstalled'
      rw [step, Dictionary.lookup_insert] at hinstalled'
      by_cases hname : name' = name
      · rw [if_pos hname, Option.some.injEq] at hinstalled'
        rw [hname, ← hinstalled']
        exact hfits
      · rw [if_neg hname] at hinstalled'
        exact h name' aModule' hinstalled'
  | uninstallModule name =>
    rw [listsInstalled_iff] at h ⊢
    refine ⟨fun _ => trivial, fun _ name' aModule' hinstalled' => ?_⟩
    rw [step, Dictionary.lookup_erase] at hinstalled'
    by_cases hname : name' = name
    · rw [if_pos hname] at hinstalled'
      cases hinstalled'
    · rw [if_neg hname] at hinstalled'
      exact h name' aModule' hinstalled'
  | allKeys name =>
    exact ⟨fun _ => trivial,
      fun _ => listsInstalled_allKeys capitalizedString defaultAppSupportPath h⟩
  | entryCount name =>
    exact ⟨fun _ => trivial,
      fun _ => listsInstalled_allKeys capitalizedString defaultAppSupportPath h⟩

/-- **The keys listed are the installed module's all along a run exactly when no module is installed
under a name whose cache file holds other keys.** The run starts with no cache file. -/
theorem listed_keys_iff {library : Library} (hnew : library.files = ∅)
    (calls : List LibraryCall) :
    Always (step capitalizedString defaultAppSupportPath)
        (fun library call => ListsInstalled capitalizedString defaultAppSupportPath
          (library.step capitalizedString defaultAppSupportPath call)) library calls ↔
      Always (step capitalizedString defaultAppSupportPath)
        (InstallsFitting capitalizedString defaultAppSupportPath) library calls := by
  have hstart : ListsInstalled capitalizedString defaultAppSupportPath library := by
    rw [listsInstalled_iff]
    intro name aModule _
    rw [CacheFits, cached, hnew, AList.lookup_empty]
    exact Or.inl rfl
  exact always_iff
    (fun library call h =>
      (listsInstalled_step_iff capitalizedString defaultAppSupportPath h call).mpr)
    (fun library call h => listsInstalled_step_iff capitalizedString defaultAppSupportPath h call)
    hstart

end Runs

/-- The first version of a lexicon, with one key. -/
def lexicon : Lexicon := ⟨false, [[0x41]]⟩

/-- The second version of it, with a key more. -/
def largerLexicon : Lexicon := ⟨false, [[0x41], [0x42]]⟩

/-- Every install of a run may be the same module's. -/
theorem listed_keys_of_reinstall :
    Always (step id "/Sword")
      (fun library call => ListsInstalled id "/Sword" (library.step id "/Sword" call)) ⟨∅, ∅⟩
      [.installModule "L" lexicon, .allKeys "L", .uninstallModule "L",
        .installModule "L" lexicon] :=
  (listed_keys_iff id "/Sword" rfl _).mpr
    ⟨Or.inl (by decide), trivial, trivial, Or.inr (by decide), trivial⟩

/-- An update of the module leaves the keys of its first version listed. -/
theorem keys_stale_after_update :
    ¬ Always (step id "/Sword")
      (fun library call => ListsInstalled id "/Sword" (library.step id "/Sword" call)) ⟨∅, ∅⟩
      [.installModule "L" lexicon, .allKeys "L", .installModule "L" largerLexicon] := by
  rintro ⟨-, -, hupdate, -⟩
  exact absurd (hupdate "L" largerLexicon (by decide)).1 (by decide)

end Library

end ObjCSword
