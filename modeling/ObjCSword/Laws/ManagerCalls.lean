import ObjCSword.SwordManager

/-!
# What the calls of a manager change

A call that looks up modules does two things to the manager besides taking addresses: it attaches
filters to modules that have none, and it may put a null pointer into `Modules`. `Evolves` says so,
and says nothing else is changed; `call_spec` adds which modules a call hands out, by what was asked
for (`Asked`), and that these have their filters then.
-/

namespace ObjCSword.SwordManager

open Sword

variable {Key : Type}

/-- A module that is stored under a name. -/
def Stored (mgr : SwordManager Key) (name : String) (ref : Nat) : Prop :=
  AList.lookup name mgr.modules = some (some ref)

/-! ## Filters -/

/-- The classes of the render filter and of the strip filters a module of some markup is given. -/
def filtersFor (P : FilterProvider) : SWTextMarkup → FilterClass × List FilterClass
  | .gbf => (P.newGbfRenderFilter, [P.newGbfPlainFilter])
  | .thml => (P.newThmlRenderFilter, [P.newThmlPlainFilter])
  | .osis => (P.newOsisRenderFilter, [P.newOsisPlainFilter])
  | .tei => (P.newTeiRenderFilter, [P.newTeiPlainFilter])
  | .plain | .other => (P.newOsisPlainFilter, [])

/-- A module before and after its filters were attached. -/
structure Attached (P : FilterProvider) (m m' : ManagedModule Key) : Prop where
  before : m.renderFilters = []
  after : ∃ render strips, m' = { m with
      renderFilters := [render]
      stripFilters := m.stripFilters ++ strips } ∧
    render.cls = (filtersFor P m.markup).1 ∧ strips.map SWFilter.cls = (filtersFor P m.markup).2

theorem Attached.renderFilters_ne_nil {P : FilterProvider} {m m' : ManagedModule Key}
    (h : Attached P m m') : m'.renderFilters ≠ [] := by
  obtain ⟨render, strips, rfl, -, -⟩ := h.after
  exact List.cons_ne_nil _ _

/-- A module is as it was, or was given its filters. -/
def Filtered (P : FilterProvider) (m m' : ManagedModule Key) : Prop := m' = m ∨ Attached P m m'

namespace Filtered

variable {P : FilterProvider} {m m' m'' : ManagedModule Key}

theorem trans (h : Filtered P m m') (h' : Filtered P m' m'') : Filtered P m m'' := by
  rcases h with rfl | h
  · exact h'
  · rcases h' with rfl | h'
    · exact Or.inr h
    · exact absurd h'.before h.renderFilters_ne_nil

/-- A module that has a render filter keeps its filters. -/
theorem eq_of_ne_nil (h : Filtered P m m') (hm : m.renderFilters ≠ []) : m' = m := by
  rcases h with rfl | h
  · rfl
  · exact absurd h.before hm

theorem fixed (h : Filtered P m m') : m'.toSWModule = m.toSWModule ∧ m'.type = m.type ∧
    m'.markup = m.markup := by
  rcases h with rfl | h
  · exact ⟨rfl, rfl, rfl⟩
  · obtain ⟨render, strips, rfl, -, -⟩ := h.after
    exact ⟨rfl, rfl, rfl⟩

end Filtered

/-! ## One step of a manager -/

/-- What a call may change: null pointers are added, filters attached and addresses taken. -/
structure Evolves (P : FilterProvider) (mgr mgr' : SwordManager Key) : Prop where
  stored : ∀ name ref, Stored mgr' name ref ↔ Stored mgr name ref
  memory : ∀ ref, Filtered P (mgr.memory ref) (mgr'.memory ref)
  next_le : mgr.next ≤ mgr'.next

namespace Evolves

variable {P : FilterProvider} {mgr mgr' mgr'' : SwordManager Key}

theorem refl (mgr : SwordManager Key) : Evolves P mgr mgr :=
  ⟨fun _ _ => Iff.rfl, fun _ => Or.inl rfl, Nat.le_refl _⟩

theorem trans (h : Evolves P mgr mgr') (h' : Evolves P mgr' mgr'') : Evolves P mgr mgr'' :=
  ⟨fun name ref => (h'.stored name ref).trans (h.stored name ref),
    fun ref => (h.memory ref).trans (h'.memory ref), Nat.le_trans h.next_le h'.next_le⟩

end Evolves

theorem insertNull_evolves {P : FilterProvider} {mgr : SwordManager Key} {name : String}
    (h : AList.lookup name mgr.modules = none) : Evolves P mgr (mgr.insertNull name) := by
  refine ⟨fun other ref => ?_, fun ref => Or.inl rfl, Nat.le_refl _⟩
  rw [Stored, insertNull, Dictionary.lookup_insert]
  split
  · next heq => rw [Stored, heq, h]; simp only [Option.some.injEq, reduceCtorEq]
  · exact Iff.rfl

/-- The module with one render filter, and some more strip filters. -/
def withFilters (m : ManagedModule Key) (render : SWFilter) (strips : List SWFilter) :
    ManagedModule Key :=
  { m with renderFilters := [render], stripFilters := m.stripFilters ++ strips }

theorem setRenderFilter_memory (mgr : SwordManager Key) {ref : Nat}
    (hempty : (mgr.memory ref).renderFilters = []) (aFilter : SWFilter) :
    (setRenderFilter ref aFilter mgr).memory =
      Function.update mgr.memory ref (withFilters (mgr.memory ref) aFilter []) := by
  simp only [setRenderFilter, update, ManagedModule.removeRenderFilter,
    ManagedModule.addRenderFilter, withFilters, hempty, List.filter_nil, List.nil_append,
    List.append_nil]

theorem setBothFilters_memory {mgr : SwordManager Key} {ref : Nat}
    (hempty : (mgr.memory ref).renderFilters = []) (render strip : FilterClass) :
    (setBothFilters ref render strip mgr).memory =
      Function.update mgr.memory ref
        (withFilters (mgr.memory ref) ⟨mgr.next, render⟩ [⟨mgr.next + 1, strip⟩]) := by
  let rendered := setRenderFilter ref (newFilter render mgr).1 (newFilter render mgr).2
  have hrender : rendered.memory = Function.update mgr.memory ref
      (withFilters (mgr.memory ref) ⟨mgr.next, render⟩ []) :=
    setRenderFilter_memory (newFilter render mgr).2 hempty _
  show Function.update rendered.memory ref
    ((rendered.memory ref).addStripFilter ⟨mgr.next + 1, strip⟩) = _
  rw [hrender, Function.update_self, Function.update_idem]
  simp only [withFilters, ManagedModule.addStripFilter, List.append_nil]

/-- The filters are attached to a module that has none, and nothing else is written. -/
theorem setFiltersToModule_memory {mgr : SwordManager Key} {ref : Nat} (P : FilterProvider)
    (hempty : (mgr.memory ref).renderFilters = []) :
    ∃ render strips, (setFiltersToModule P ref mgr).memory =
        Function.update mgr.memory ref (withFilters (mgr.memory ref) render strips) ∧
      render.cls = (filtersFor P (mgr.memory ref).markup).1 ∧
      strips.map SWFilter.cls = (filtersFor P (mgr.memory ref).markup).2 := by
  rw [setFiltersToModule, if_neg (not_not_intro hempty)]
  cases (mgr.memory ref).markup with
  | gbf => exact ⟨_, _, setBothFilters_memory hempty _ _, rfl, rfl⟩
  | thml => exact ⟨_, _, setBothFilters_memory hempty _ _, rfl, rfl⟩
  | osis => exact ⟨_, _, setBothFilters_memory hempty _ _, rfl, rfl⟩
  | tei => exact ⟨_, _, setBothFilters_memory hempty _ _, rfl, rfl⟩
  | plain =>
    exact ⟨_, _, setRenderFilter_memory (newFilter P.newOsisPlainFilter mgr).2 hempty _, rfl, rfl⟩
  | other =>
    exact ⟨_, _, setRenderFilter_memory (newFilter P.newOsisPlainFilter mgr).2 hempty _, rfl, rfl⟩

theorem setFiltersToModule_modules (P : FilterProvider) (ref : Nat) (mgr : SwordManager Key) :
    (setFiltersToModule P ref mgr).modules = mgr.modules := by
  rw [setFiltersToModule]
  split
  · rfl
  · split <;> rfl

theorem setFiltersToModule_next (P : FilterProvider) (ref : Nat) (mgr : SwordManager Key) :
    mgr.next ≤ (setFiltersToModule P ref mgr).next := by
  have hboth : ∀ render strip, mgr.next ≤ (setBothFilters ref render strip mgr).next :=
    fun _ _ => Nat.le_add_right mgr.next 2
  rw [setFiltersToModule]
  split
  · exact Nat.le_refl _
  · split
    · exact hboth _ _
    · exact hboth _ _
    · exact hboth _ _
    · exact hboth _ _
    · exact Nat.le_succ mgr.next
    · exact Nat.le_succ mgr.next

theorem setFiltersToModule_evolves (P : FilterProvider) (ref : Nat) (mgr : SwordManager Key) :
    Evolves P mgr (setFiltersToModule P ref mgr) ∧
      ((setFiltersToModule P ref mgr).memory ref).renderFilters ≠ [] := by
  by_cases hempty : (mgr.memory ref).renderFilters = []
  · obtain ⟨render, strips, hmemory, hrender, hstrips⟩ := setFiltersToModule_memory P hempty
    have hattached : Attached P (mgr.memory ref) (withFilters (mgr.memory ref) render strips) :=
      ⟨hempty, render, strips, rfl, hrender, hstrips⟩
    refine ⟨⟨fun name other => ?_, fun other => ?_, setFiltersToModule_next P ref mgr⟩, ?_⟩
    · rw [Stored, setFiltersToModule_modules, Stored]
    · rw [hmemory]
      by_cases hother : other = ref
      · rw [hother, Function.update_self]
        exact Or.inr hattached
      · rw [Function.update_of_ne hother]
        exact Or.inl rfl
    · rw [hmemory, Function.update_self]
      exact hattached.renderFilters_ne_nil
  · rw [setFiltersToModule, if_pos hempty]
    exact ⟨Evolves.refl mgr, hempty⟩

/-! ## Looking up one module -/

theorem getSWModuleWithName_evolves (P : FilterProvider) (name : String) (mgr : SwordManager Key) :
    Evolves P mgr (getSWModuleWithName name mgr).2 := by
  rw [getSWModuleWithName]
  split
  · exact Evolves.refl mgr
  · next h => exact insertNull_evolves h

/-- A module that is stored is handed out with its filters, by a new object. -/
theorem moduleWithName_stored (P : FilterProvider) {name : String} {mgr : SwordManager Key}
    {ref : Nat} (h : Stored mgr name ref) :
    (moduleWithName P name mgr).1 =
        some ⟨ref, mgr.next, SwordModule.moduleTypeForModuleTypeString (mgr.memory ref).type⟩ ∧
      (moduleWithName P name mgr).2.modules = mgr.modules ∧
      Evolves P mgr (moduleWithName P name mgr).2 ∧
      ((moduleWithName P name mgr).2.memory ref).renderFilters ≠ [] := by
  have hmodule : moduleWithName P name mgr =
      (some (moduleForType ref mgr).1, setFiltersToModule P ref (moduleForType ref mgr).2) := by
    rw [moduleWithName, getSWModuleWithName, h]
  obtain ⟨hevolves, hfilters⟩ := setFiltersToModule_evolves P ref (moduleForType ref mgr).2
  have hnew : Evolves P mgr (moduleForType ref mgr).2 :=
    ⟨fun _ _ => Iff.rfl, fun _ => Or.inl rfl, Nat.le_succ _⟩
  rw [hmodule]
  exact ⟨rfl, setFiltersToModule_modules P ref _, hnew.trans hevolves, hfilters⟩

/-- The address of its lock is taken from then on. -/
theorem moduleWithName_next (P : FilterProvider) {name : String} {mgr : SwordManager Key}
    {ref : Nat} (h : Stored mgr name ref) : mgr.next < (moduleWithName P name mgr).2.next := by
  rw [moduleWithName, getSWModuleWithName, h]
  exact setFiltersToModule_next P ref (moduleForType ref mgr).2

/-- Nothing is handed out under any other name. -/
theorem moduleWithName_not_stored (P : FilterProvider) {name : String} {mgr : SwordManager Key}
    (h : ∀ ref, ¬ Stored mgr name ref) :
    moduleWithName P name mgr = (none, (getSWModuleWithName name mgr).2) := by
  rw [moduleWithName, getSWModuleWithName]
  cases hlookup : AList.lookup name mgr.modules with
  | none => rfl
  | some mod =>
    cases mod with
    | none => rfl
    | some ref => exact absurd hlookup (h ref)

/-! ## Listing all modules -/

/-- The type that an object for a module has. -/
def typeOf (m : ManagedModule Key) : ModuleType :=
  SwordModule.moduleTypeForModuleTypeString m.type

/-- The loop of `allModules`, after some entries: what was listed, and the manager then. -/
structure Listed (P : FilterProvider) (mgr : SwordManager Key) (seen : List (Option Nat))
    (listed : Dictionary SwordModuleObject × SwordManager Key) : Prop where
  modules : listed.2.modules = mgr.modules
  evolves : Evolves P mgr listed.2
  stored : ∀ name obj, AList.lookup name listed.1 = some obj →
    Stored mgr name obj.swModule ∧ obj.type = typeOf (mgr.memory obj.swModule) ∧
      (listed.2.memory obj.swModule).renderFilters ≠ []
  seen : ∀ name ref, Stored mgr name ref → some ref ∈ seen →
    ∃ obj, AList.lookup name listed.1 = some obj ∧ obj.swModule = ref

namespace Listed

variable {P : FilterProvider} {mgr : SwordManager Key} {seen : List (Option Nat)}
  {listed : Dictionary SwordModuleObject × SwordManager Key}

theorem addModule_none (h : Listed P mgr seen listed) :
    Listed P mgr (seen ++ [none]) (addModule P listed none) := by
  refine ⟨h.modules, h.evolves, h.stored, fun name ref hstored hseen => ?_⟩
  rcases List.mem_append.mp hseen with hseen | hseen
  · exact h.seen name ref hstored hseen
  · cases List.mem_singleton.mp hseen

/-- What is listed for a stored module, and the manager then. -/
theorem addModule_eq (h : Listed P mgr seen listed) {name : String} {ref : Nat}
    (href : Stored mgr name ref) :
    addModule P listed (some ref) =
      (listed.1.insert name ⟨ref, listed.2.next, typeOf (listed.2.memory ref)⟩,
        (moduleWithName P name listed.2).2) := by
  have hnow : Stored listed.2 name ref := (h.evolves.stored name ref).mpr href
  obtain ⟨hobject, -, hevolves, -⟩ := moduleWithName_stored P hnow
  have hname : ((moduleWithName P name listed.2).2.memory ref).name = name :=
    (moduleWithName P name listed.2).2.name_eq name ref ((hevolves.stored name ref).mpr hnow)
  rw [addModule, listed.2.name_eq name ref hnow]
  simp only [hobject]
  rw [hname]
  rfl

/-- A stored module has one name. -/
theorem name_unique {name other : String} {ref : Nat} (h : Stored mgr name ref)
    (h' : Stored mgr other ref) : other = name :=
  (mgr.name_eq other ref h').symm.trans (mgr.name_eq name ref h)

theorem addModule_some (h : Listed P mgr seen listed) {name : String} {ref : Nat}
    (href : Stored mgr name ref) :
    Listed P mgr (seen ++ [some ref]) (addModule P listed (some ref)) := by
  have hnow : Stored listed.2 name ref := (h.evolves.stored name ref).mpr href
  obtain ⟨-, hmodules, hevolves, hfilters⟩ := moduleWithName_stored P hnow
  rw [h.addModule_eq href]
  refine ⟨hmodules.trans h.modules, h.evolves.trans hevolves, ?_, ?_⟩
  · intro other found hfound
    rw [Dictionary.lookup_insert] at hfound
    split at hfound
    · next heq =>
      cases hfound
      have htype : typeOf (listed.2.memory ref) = typeOf (mgr.memory ref) :=
        congrArg SwordModule.moduleTypeForModuleTypeString (h.evolves.memory ref).fixed.2.1
      exact ⟨heq ▸ href, htype, hfilters⟩
    · obtain ⟨hstored, hold, hne⟩ := h.stored other found hfound
      refine ⟨hstored, hold, ?_⟩
      have hsame := (hevolves.memory found.swModule).eq_of_ne_nil hne
      rw [hsame]
      exact hne
  · intro other ref' hstored hseen
    rw [Dictionary.lookup_insert]
    by_cases heq : other = name
    · rw [if_pos heq]
      subst heq
      have hsame : ref' = ref := Option.some.inj (Option.some.inj (hstored.symm.trans href))
      exact ⟨_, rfl, hsame.symm⟩
    · rw [if_neg heq]
      refine h.seen other ref' hstored ?_
      rcases List.mem_append.mp hseen with hseen | hseen
      · exact hseen
      · obtain rfl : ref' = ref := Option.some.inj (List.mem_singleton.mp hseen)
        exact absurd (name_unique href hstored) heq

theorem foldl (entries : List (Option Nat))
    (hentries : ∀ ref, some ref ∈ entries → ∃ name, Stored mgr name ref)
    (h : Listed P mgr seen listed) :
    Listed P mgr (seen ++ entries) (entries.foldl (addModule P) listed) := by
  induction entries generalizing seen listed with
  | nil => rwa [List.append_nil]
  | cons entry entries ih =>
    have hrest : ∀ ref, some ref ∈ entries → ∃ name, Stored mgr name ref :=
      fun ref href => hentries ref (List.mem_cons_of_mem _ href)
    have hnext : Listed P mgr (seen ++ [entry]) (addModule P listed entry) := by
      cases entry with
      | none => exact h.addModule_none
      | some ref =>
        obtain ⟨name, hname⟩ := hentries ref List.mem_cons_self
        exact h.addModule_some hname
    have hall := ih hrest hnext
    rwa [List.append_assoc, List.singleton_append] at hall

end Listed

/-- All modules are listed, each under its name. -/
theorem allModules_listed (P : FilterProvider) (mgr : SwordManager Key) :
    Listed P mgr (mgr.modules.entries.map (·.2)) (allModules P mgr) := by
  have hstart : Listed P mgr [] (∅, mgr) := by
    refine ⟨rfl, Evolves.refl mgr, fun name obj h => ?_, fun name ref _ h => ?_⟩
    · rw [AList.lookup_empty] at h
      cases h
    · exact absurd h List.not_mem_nil
  have hall := hstart.foldl (mgr.modules.entries.map (·.2)) fun ref href =>
    Dictionary.mem_values_iff.mp href
  rwa [List.nil_append] at hall

/-! ## One call -/

/-- The modules that a call asks for. -/
def Asked (mgr : SwordManager Key) : ManagerCall → Nat → Prop
  | .moduleWithName name, ref => Stored mgr name ref
  | .getSWModuleWithName _, _ => False
  | .allModules, ref => ∃ name, Stored mgr name ref
  | .moduleNames, _ => False
  | .modulesForType type, ref =>
    (∃ name, Stored mgr name ref) ∧ (typeOf (mgr.memory ref) = type ∨ type = .all)
  | .modulesForFeature feature, ref =>
    (∃ name, Stored mgr name ref) ∧
      SwordModule.hasFeature (mgr.memory ref).toSWModule feature = true
  | .modulesForCategory cat, ref =>
    (∃ name, Stored mgr name ref) ∧ SwordModule.category (mgr.memory ref).toSWModule = cat

/-- What is asked for does not change. -/
theorem Evolves.asked {P : FilterProvider} {mgr mgr' : SwordManager Key} (h : Evolves P mgr mgr')
    (call : ManagerCall) (ref : Nat) : Asked mgr' call ref ↔ Asked mgr call ref := by
  obtain ⟨hops, htype, -⟩ := (h.memory ref).fixed
  cases call with
  | moduleWithName name => exact h.stored name ref
  | getSWModuleWithName name => exact Iff.rfl
  | allModules => exact exists_congr fun name => h.stored name ref
  | moduleNames => exact Iff.rfl
  | modulesForType type => simp only [Asked, h.stored, typeOf, htype]
  | modulesForFeature feature => simp only [Asked, h.stored, hops]
  | modulesForCategory cat => simp only [Asked, h.stored, hops]

/-- What a call hands out, and what it leaves: the modules that were asked for, with their
filters. -/
structure HandsOut (P : FilterProvider) (mgr : SwordManager Key) (asked : Nat → Prop)
    (out : List SwordModuleObject × SwordManager Key) : Prop where
  evolves : Evolves P mgr out.2
  handed : ∀ ref, asked ref ↔ ∃ obj ∈ out.1, obj.swModule = ref
  filters : ∀ obj ∈ out.1, (out.2.memory obj.swModule).renderFilters ≠ []

theorem allModules_handsOut (P : FilterProvider) (mgr : SwordManager Key) :
    HandsOut P mgr (fun ref => ∃ name, Stored mgr name ref)
      ((allModules P mgr).1.entries.map (·.2), (allModules P mgr).2) := by
  have hlisted := allModules_listed P mgr
  refine ⟨hlisted.evolves, fun ref => ⟨?_, ?_⟩, fun obj hobj => ?_⟩
  · rintro ⟨name, hname⟩
    obtain ⟨obj, hobj, href⟩ := hlisted.seen name ref hname
      (Dictionary.mem_values_iff.mpr ⟨name, hname⟩)
    exact ⟨obj, Dictionary.mem_values_iff.mpr ⟨name, hobj⟩, href⟩
  · rintro ⟨obj, hobj, rfl⟩
    obtain ⟨name, hname⟩ := Dictionary.mem_values_iff.mp hobj
    exact ⟨name, (hlisted.stored name obj hname).1⟩
  · obtain ⟨name, hname⟩ := Dictionary.mem_values_iff.mp hobj
    exact (hlisted.stored name obj hname).2.2

/-- A test of all modules that says something of the module of each object. -/
theorem modulesFor_handsOut (P : FilterProvider) (mgr : SwordManager Key)
    (test : SwordManager Key → SwordModuleObject → Bool) (asked : Nat → Prop)
    (htest : ∀ obj ∈ (allModules P mgr).1.entries.map (·.2),
      test (allModules P mgr).2 obj = true ↔ asked obj.swModule) :
    HandsOut P mgr (fun ref => (∃ name, Stored mgr name ref) ∧ asked ref)
      (modulesFor P test mgr) := by
  have hall := allModules_handsOut P mgr
  have hmem : ∀ obj, obj ∈ (modulesFor P test mgr).1 ↔
      obj ∈ (allModules P mgr).1.entries.map (·.2) ∧ test (allModules P mgr).2 obj = true := by
    intro obj
    rw [modulesFor]
    dsimp only
    rw [List.mem_mergeSort, List.mem_filter]
  refine ⟨hall.evolves, fun ref => ⟨?_, ?_⟩,
    fun obj hobj => hall.filters obj ((hmem obj).mp hobj).1⟩
  · rintro ⟨hstored, hasked⟩
    obtain ⟨obj, hobj, rfl⟩ := (hall.handed ref).mp hstored
    exact ⟨obj, (hmem obj).mpr ⟨hobj, (htest obj hobj).mpr hasked⟩, rfl⟩
  · rintro ⟨obj, hobj, rfl⟩
    obtain ⟨hlisted, hpasses⟩ := (hmem obj).mp hobj
    exact ⟨(hall.handed _).mpr ⟨obj, hlisted, rfl⟩, (htest obj hlisted).mp hpasses⟩

theorem moduleWithName_handsOut (P : FilterProvider) (mgr : SwordManager Key) (name : String) :
    HandsOut P mgr (Stored mgr name) (call P mgr (.moduleWithName name)) := by
  by_cases h : ∃ ref, Stored mgr name ref
  · obtain ⟨ref, href⟩ := h
    obtain ⟨hobject, -, hnext, hfilters⟩ := moduleWithName_stored P href
    have hout : call P mgr (.moduleWithName name) =
        ([⟨ref, mgr.next, typeOf (mgr.memory ref)⟩], (moduleWithName P name mgr).2) := by
      rw [call]
      simp only [hobject]
      rfl
    have hasked : ∀ other, Stored mgr name other ↔ ref = other := by
      intro other
      rw [Stored, (href : AList.lookup name mgr.modules = _), Option.some.injEq,
        Option.some.injEq]
    rw [hout]
    refine ⟨hnext, fun other => ?_, fun obj hobj => ?_⟩
    · simp only [hasked, List.mem_singleton, exists_eq_left]
    · rw [List.mem_singleton.mp hobj]
      exact hfilters
  · have hout : call P mgr (.moduleWithName name) = ([], (getSWModuleWithName name mgr).2) := by
      rw [call, moduleWithName_not_stored P (not_exists.mp h)]
      rfl
    rw [hout]
    exact ⟨getSWModuleWithName_evolves P name mgr,
      fun ref => ⟨fun hasked => absurd ⟨ref, hasked⟩ h, nofun⟩, nofun⟩

/-- **What a call of a manager does.** -/
theorem call_handsOut (P : FilterProvider) (mgr : SwordManager Key) (c : ManagerCall) :
    HandsOut P mgr (Asked mgr c) (call P mgr c) := by
  have hevolves := (allModules_listed P mgr).evolves
  cases c with
  | moduleWithName name => exact moduleWithName_handsOut P mgr name
  | getSWModuleWithName name =>
    exact ⟨getSWModuleWithName_evolves P name mgr, fun ref => ⟨nofun, nofun⟩, nofun⟩
  | allModules => exact allModules_handsOut P mgr
  | moduleNames => exact ⟨hevolves, fun ref => ⟨nofun, nofun⟩, nofun⟩
  | modulesForType type =>
    refine modulesFor_handsOut P mgr (fun _ mod => mod.type = type ∨ type = .all)
      (fun ref => typeOf (mgr.memory ref) = type ∨ type = .all) fun obj hobj => ?_
    obtain ⟨name, hname⟩ := Dictionary.mem_values_iff.mp hobj
    have htype := ((allModules_listed P mgr).stored name obj hname).2.1
    rw [htype, decide_eq_true_eq]
  | modulesForFeature feature =>
    refine modulesFor_handsOut P mgr
      (fun mgr mod => SwordModule.hasFeature (mgr.memory mod.swModule).toSWModule feature)
      (fun ref => SwordModule.hasFeature (mgr.memory ref).toSWModule feature = true)
      fun obj _ => ?_
    rw [(hevolves.memory obj.swModule).fixed.1]
  | modulesForCategory cat =>
    refine modulesFor_handsOut P mgr
      (fun mgr mod => SwordModule.category (mgr.memory mod.swModule).toSWModule = cat)
      (fun ref => SwordModule.category (mgr.memory ref).toSWModule = cat) fun obj _ => ?_
    rw [(hevolves.memory obj.swModule).fixed.1, decide_eq_true_eq]

end ObjCSword.SwordManager
