import ObjCSword.Laws.ManagerCalls
import ObjCSword.Lib.Run

/-!
# Counting the modules

The calls of a manager look modules up through `operator[]`, which makes an entry for a name that is
not there. The entry is a null pointer, which the listings skip and the count does not. So the count
is right as long as no call asks for a name that is not installed, and wrong from the first one on.
-/

namespace ObjCSword.SwordManager

open Sword Lib.Run

variable {Key : Type}

/-- The name a call looks up on behalf of the client. -/
def lookedUp : ManagerCall → Option String
  | .moduleWithName name | .getSWModuleWithName name => some name
  | _ => none

/-- A call that looks up no name but one of the map's. -/
def Known (mgr : SwordManager Key) (c : ManagerCall) : Prop :=
  ∀ name, lookedUp c = some name → name ∈ mgr.modules

/-- The count is the number of the modules listed, and is what it was. -/
def Counted (P : FilterProvider) (number : Nat) (mgr : SwordManager Key) : Prop :=
  numberOfModules mgr = (allModules P mgr).1.entries.length ∧ numberOfModules mgr = number

/-! ## The map after a call -/

theorem getSWModuleWithName_of_mem {name : String} {mgr : SwordManager Key}
    (h : name ∈ mgr.modules) : (getSWModuleWithName name mgr).2 = mgr := by
  obtain ⟨mod, hmod⟩ := Option.isSome_iff_exists.mp (AList.lookup_isSome.mpr h)
  rw [getSWModuleWithName, hmod]

theorem getSWModuleWithName_of_not_mem {name : String} {mgr : SwordManager Key}
    (h : name ∉ mgr.modules) :
    (getSWModuleWithName name mgr).2.modules = mgr.modules.insert name none := by
  rw [getSWModuleWithName, AList.lookup_eq_none.mpr h]
  rfl

/-- A lookup of one module does to the map what `operator[]` does. -/
theorem moduleWithName_modules (P : FilterProvider) (name : String) (mgr : SwordManager Key) :
    (moduleWithName P name mgr).2.modules = (getSWModuleWithName name mgr).2.modules := by
  by_cases h : ∃ ref, Stored mgr name ref
  · obtain ⟨ref, href⟩ := h
    have hmem : name ∈ mgr.modules := by
      rw [← AList.lookup_isSome, (href : AList.lookup name mgr.modules = _)]
      rfl
    rw [(moduleWithName_stored P href).2.1, getSWModuleWithName_of_mem hmem]
  · rw [moduleWithName_not_stored P (not_exists.mp h)]

theorem call_modules_of_known (P : FilterProvider) {mgr : SwordManager Key} {c : ManagerCall}
    (h : Known mgr c) : (call P mgr c).2.modules = mgr.modules := by
  have hall := (allModules_listed P mgr).modules
  cases c with
  | moduleWithName name =>
    have hlookup := moduleWithName_modules P name mgr
    rw [getSWModuleWithName_of_mem (h name rfl)] at hlookup
    exact hlookup
  | getSWModuleWithName name =>
    exact congrArg SwordManager.modules (getSWModuleWithName_of_mem (h name rfl))
  | allModules => exact hall
  | moduleNames => exact hall
  | modulesForType type => exact hall
  | modulesForFeature feature => exact hall
  | modulesForCategory cat => exact hall

/-- A name that is not there adds one to the count. -/
theorem numberOfModules_of_not_known (P : FilterProvider) {mgr : SwordManager Key}
    {c : ManagerCall} (h : ¬ Known mgr c) :
    numberOfModules (call P mgr c).2 = numberOfModules mgr + 1 := by
  have hname : ∃ name, lookedUp c = some name ∧ name ∉ mgr.modules := by
    simpa only [Known, not_forall, exists_prop] using h
  obtain ⟨name, hc, hmem⟩ := hname
  have hmodules : (call P mgr c).2.modules = mgr.modules.insert name none := by
    rw [← getSWModuleWithName_of_not_mem hmem]
    cases c with
    | moduleWithName other =>
      cases hc
      exact moduleWithName_modules P name mgr
    | getSWModuleWithName other =>
      cases hc
      rfl
    | allModules => cases hc
    | moduleNames => cases hc
    | modulesForType type => cases hc
    | modulesForFeature feature => cases hc
    | modulesForCategory cat => cases hc
  rw [numberOfModules, hmodules, AList.entries_insert_of_notMem hmem, List.length_cons,
    numberOfModules]

/-! ## The count -/

/-- In a map without null pointers every entry is listed. -/
theorem length_allModules (P : FilterProvider) {mgr : SwordManager Key}
    (hnull : ∀ name, AList.lookup name mgr.modules ≠ some none) :
    (allModules P mgr).1.entries.length = numberOfModules mgr := by
  have hlisted := allModules_listed P mgr
  have hmem : ∀ name, name ∈ (allModules P mgr).1.keys ↔ name ∈ mgr.modules.keys := by
    intro name
    rw [← AList.mem_keys, ← AList.mem_keys, ← AList.lookup_isSome, ← AList.lookup_isSome,
      Option.isSome_iff_exists, Option.isSome_iff_exists]
    constructor
    · rintro ⟨obj, hobj⟩
      exact ⟨_, (hlisted.stored name obj hobj).1⟩
    · rintro ⟨mod, hmod⟩
      cases mod with
      | none => exact absurd hmod (hnull name)
      | some ref =>
        obtain ⟨obj, hobj, -⟩ := hlisted.seen name ref hmod
          (Dictionary.mem_values_iff.mpr ⟨name, hmod⟩)
        exact ⟨obj, hobj⟩
  have hperm := (List.perm_ext_iff_of_nodup (AList.keys_nodup _) (AList.keys_nodup _)).mpr hmem
  have hlength := hperm.length_eq
  rw [AList.keys, AList.keys, List.keys, List.keys, List.length_map, List.length_map] at hlength
  exact hlength

/-- **The count over a run.** It is the number of the modules listed, and what it was at the start,
after every call of a run exactly when no call looks up a name that is not installed. -/
theorem numberOfModules_iff (P : FilterProvider) {mgr : SwordManager Key}
    (hnull : ∀ name, AList.lookup name mgr.modules ≠ some none) (calls : List ManagerCall) :
    Always (fun s c => (call P s c).2)
        (fun s c => Counted P (numberOfModules mgr) (call P s c).2) mgr calls ↔
      ∀ c ∈ calls, Known mgr c := by
  have hcounted : ∀ s : SwordManager Key, s.modules = mgr.modules →
      Counted P (numberOfModules mgr) s := by
    intro s hs
    have hnumber : numberOfModules s = numberOfModules mgr := by
      rw [numberOfModules, hs, numberOfModules]
    exact ⟨(length_allModules P fun name => by rw [hs]; exact hnull name).symm, hnumber⟩
  have hknown : ∀ (s : SwordManager Key) (c : ManagerCall), s.modules = mgr.modules →
      (Known s c ↔ Known mgr c) := by
    intro s c hs
    rw [Known, Known, hs]
  have hkeeps : ∀ (s : SwordManager Key) (c : ManagerCall), s.modules = mgr.modules →
      Known mgr c → (call P s c).2.modules = mgr.modules :=
    fun s c hs hc => (call_modules_of_known P ((hknown s c hs).mpr hc)).trans hs
  have hdecides : ∀ (s : SwordManager Key) (c : ManagerCall), s.modules = mgr.modules →
      (Counted P (numberOfModules mgr) (call P s c).2 ↔ Known mgr c) := by
    intro s c hs
    rw [← hknown s c hs]
    constructor
    · intro hafter
      by_contra hnot
      have hmore := numberOfModules_of_not_known P hnot
      have hsame := hafter.2
      rw [hmore, (hcounted s hs).2] at hsame
      omega
    · intro hc
      exact hcounted _ ((call_modules_of_known P hc).trans hs)
  exact (always_iff hkeeps hdecides rfl).trans always_iff_forall_mem

/-! ## A manager of one module -/

/-- A module of some name and markup, without filters. -/
def plainModule (name : String) (markup : SWTextMarkup) : ManagedModule Unit where
  setText k _ := k
  getText _ := ""
  createKey := ()
  error _ := false
  renderText _ := none
  stripText _ := none
  entryAttributes _ := ∅
  getConfigEntry _ := none
  has _ _ := false
  globalOption _ := false
  name := name
  type := SWMOD_TYPES_BIBLES
  markup := markup
  renderFilters := []
  stripFilters := []

/-- One module, stored under its name. -/
def managerOf (m : ManagedModule Key) : SwordManager Key where
  modules := AList.insert m.name (some 0) ∅
  memory _ := m
  next := 1
  name_eq := by
    intro name ref h
    rw [Dictionary.lookup_insert] at h
    split at h
    · next heq => exact heq.symm
    · cases h

theorem managerOf_lookup (m : ManagedModule Key) (name : String) :
    AList.lookup name (managerOf m).modules ≠ some none := by
  rw [managerOf, Dictionary.lookup_insert]
  split
  · exact nofun
  · exact nofun

/-- Asking for the module that is there. -/
theorem numberOfModules_iff_known :
    Always (fun s c => (call DefaultFilterProvider s c).2)
      (fun s c => Counted DefaultFilterProvider 1 (call DefaultFilterProvider s c).2)
      (managerOf (plainModule "KJV" .osis)) [.moduleWithName "KJV", .moduleNames] := by
  refine (numberOfModules_iff DefaultFilterProvider (managerOf_lookup (plainModule "KJV" .osis))
    [.moduleWithName "KJV", .moduleNames]).mpr ?_
  intro c hc name hname
  rcases List.mem_cons.mp hc with rfl | hc
  · cases hname
    exact (AList.mem_insert _).mpr (Or.inl rfl)
  · cases List.mem_singleton.mp hc
    cases hname

/-- After asking for a module that is not there, two modules are counted and one is listed. -/
theorem numberOfModules_after_unknown :
    let mgr := (call DefaultFilterProvider (managerOf (plainModule "KJV" .osis))
      (.moduleWithName "ESV")).2
    numberOfModules (managerOf (plainModule "KJV" .osis)) = 1 ∧ numberOfModules mgr = 2 ∧
      (allModules DefaultFilterProvider mgr).1.entries.length = 1 := by
  refine ⟨rfl, ?_, ?_⟩
  · decide
  · decide

end ObjCSword.SwordManager
