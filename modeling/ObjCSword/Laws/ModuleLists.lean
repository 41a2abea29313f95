import ObjCSword.Laws.ManagerCalls

/-!
# Lists of modules

The methods that list modules by their type, category or feature all go through `allModules`, which
has each installed module once, under its name. So a list has no module twice, and whatever calls
were made before, every installed module is in the list of one type and in that of one category
(`modules_partition`).
-/

namespace ObjCSword.SwordManager

open Sword

variable {Key : Type}

/-- The names of the modules that a call has listed. -/
def namesOf (listed : List SwordModuleObject × SwordManager Key) : List String :=
  listed.1.map fun obj => (listed.2.memory obj.swModule).name

/-- The objects of `allModules` have the names they are listed under. -/
theorem namesOf_allModules (P : FilterProvider) (mgr : SwordManager Key) :
    ((allModules P mgr).1.entries.map (·.2)).map
        (fun obj => ((allModules P mgr).2.memory obj.swModule).name) =
      (allModules P mgr).1.keys := by
  have hlisted := allModules_listed P mgr
  rw [List.map_map]
  refine List.map_congr_left fun e he => ?_
  have hstored := (hlisted.stored e.1 e.2 (AList.mem_lookup_iff.mpr he)).1
  exact (allModules P mgr).2.name_eq e.1 e.2.swModule
    ((hlisted.evolves.stored e.1 e.2.swModule).mpr hstored)

/-- No list has two modules of one name. -/
theorem namesOf_modulesFor_nodup (P : FilterProvider)
    (test : SwordManager Key → SwordModuleObject → Bool) (mgr : SwordManager Key) :
    (namesOf (modulesFor P test mgr)).Nodup := by
  have hall : (((allModules P mgr).1.entries.map (·.2)).map
      fun obj => ((allModules P mgr).2.memory obj.swModule).name).Nodup := by
    rw [namesOf_allModules]
    exact AList.keys_nodup _
  have hperm := (List.mergeSort_perm (((allModules P mgr).1.entries.map (·.2)).filter
    (test (allModules P mgr).2)) fun a b =>
      ((allModules P mgr).2.memory a.swModule).name ≤
        ((allModules P mgr).2.memory b.swModule).name).map
    fun obj => ((allModules P mgr).2.memory obj.swModule).name
  exact hperm.nodup_iff.mpr (hall.sublist (List.filter_sublist.map _))

/-- The names in what a call hands out are those of the modules that were asked for. -/
theorem HandsOut.mem_namesOf {P : FilterProvider} {mgr : SwordManager Key} {asked : Nat → Prop}
    {out : List SwordModuleObject × SwordManager Key} (h : HandsOut P mgr asked out)
    (hstored : ∀ ref, asked ref → ∃ name, Stored mgr name ref) (name : String) :
    name ∈ namesOf out ↔ ∃ ref, Stored mgr name ref ∧ asked ref := by
  have hname : ∀ {other ref}, Stored mgr other ref → (out.2.memory ref).name = other :=
    fun href => out.2.name_eq _ _ ((h.evolves.stored _ _).mpr href)
  rw [namesOf, List.mem_map]
  constructor
  · rintro ⟨obj, hobj, rfl⟩
    have hasked := (h.handed obj.swModule).mpr ⟨obj, hobj, rfl⟩
    obtain ⟨other, hother⟩ := hstored _ hasked
    rw [hname hother]
    exact ⟨obj.swModule, hother, hasked⟩
  · rintro ⟨ref, href, hasked⟩
    obtain ⟨obj, hobj, rfl⟩ := (h.handed ref).mp hasked
    exact ⟨obj, hobj, hname href⟩

/-- The manager after some calls. -/
def callAll (P : FilterProvider) (mgr : SwordManager Key) (calls : List ManagerCall) :
    SwordManager Key := calls.foldl (fun mgr c => (call P mgr c).2) mgr

theorem callAll_evolves (P : FilterProvider) (mgr : SwordManager Key) (calls : List ManagerCall) :
    Evolves P mgr (callAll P mgr calls) := by
  induction calls generalizing mgr with
  | nil => exact Evolves.refl mgr
  | cons c calls ih => exact (call_handsOut P mgr c).evolves.trans (ih _)

/-- What is listed by type, after some calls. -/
theorem mem_modulesForType (P : FilterProvider) (mgr : SwordManager Key) (calls : List ManagerCall)
    (type : ModuleType) (name : String) :
    name ∈ namesOf (modulesForType P type (callAll P mgr calls)) ↔
      ∃ ref, Stored mgr name ref ∧ (typeOf (mgr.memory ref) = type ∨ type = .all) := by
  have hevolves := callAll_evolves P mgr calls
  have hhands := call_handsOut P (callAll P mgr calls) (.modulesForType type)
  refine (hhands.mem_namesOf (fun ref hasked => hasked.1) name).trans (exists_congr fun ref => ?_)
  rw [hevolves.asked, hevolves.stored]
  exact ⟨fun h => ⟨h.1, h.2.2⟩, fun h => ⟨h.1, ⟨name, h.1⟩, h.2⟩⟩

/-- What is listed by category, after some calls. -/
theorem mem_modulesForCategory (P : FilterProvider) (mgr : SwordManager Key)
    (calls : List ManagerCall) (cat : ModuleCategory) (name : String) :
    name ∈ namesOf (modulesForCategory P cat (callAll P mgr calls)) ↔
      ∃ ref, Stored mgr name ref ∧ SwordModule.category (mgr.memory ref).toSWModule = cat := by
  have hevolves := callAll_evolves P mgr calls
  have hhands := call_handsOut P (callAll P mgr calls) (.modulesForCategory cat)
  refine (hhands.mem_namesOf (fun ref hasked => hasked.1) name).trans (exists_congr fun ref => ?_)
  rw [hevolves.asked, hevolves.stored]
  exact ⟨fun h => ⟨h.1, h.2.2⟩, fun h => ⟨h.1, ⟨name, h.1⟩, h.2⟩⟩

theorem typeOf_ne_all (m : ManagedModule Key) : typeOf m ≠ .all := by
  rw [typeOf, SwordModule.moduleTypeForModuleTypeString]
  split_ifs <;> decide

/-- Two modules of one name are one. -/
theorem Stored.unique {mgr : SwordManager Key} {name : String} {ref ref' : Nat}
    (h : Stored mgr name ref) (h' : Stored mgr name ref') : ref' = ref :=
  Option.some.inj (Option.some.inj (Eq.trans (Eq.symm h') h))

/-- **Every installed module is listed once, by its type and by its category.** Whatever calls a
manager has answered, a list by type or by category has no name twice and no name but those of
installed modules; a module that is installed is in the list of all modules, in the list of just one
type, and in the list of just one category. -/
theorem modules_partition (P : FilterProvider) (mgr : SwordManager Key) (calls : List ManagerCall) :
    let now := callAll P mgr calls
    (∀ type, (namesOf (modulesForType P type now)).Nodup ∧
      ∀ name ∈ namesOf (modulesForType P type now), ∃ ref, Stored mgr name ref) ∧
    (∀ cat, (namesOf (modulesForCategory P cat now)).Nodup ∧
      ∀ name ∈ namesOf (modulesForCategory P cat now), ∃ ref, Stored mgr name ref) ∧
    ∀ name ref, Stored mgr name ref →
      name ∈ namesOf (modulesForType P .all now) ∧
      (∃! type, type ≠ ModuleType.all ∧ name ∈ namesOf (modulesForType P type now)) ∧
      ∃! cat, name ∈ namesOf (modulesForCategory P cat now) := by
  refine ⟨fun type => ⟨namesOf_modulesFor_nodup P _ _, fun name hname => ?_⟩,
    fun cat => ⟨namesOf_modulesFor_nodup P _ _, fun name hname => ?_⟩, fun name ref href => ?_⟩
  · obtain ⟨ref, href, -⟩ := (mem_modulesForType P mgr calls type name).mp hname
    exact ⟨ref, href⟩
  · obtain ⟨ref, href, -⟩ := (mem_modulesForCategory P mgr calls cat name).mp hname
    exact ⟨ref, href⟩
  · refine ⟨(mem_modulesForType P mgr calls .all name).mpr ⟨ref, href, Or.inr rfl⟩,
      ⟨typeOf (mgr.memory ref), ⟨typeOf_ne_all _,
        (mem_modulesForType P mgr calls _ name).mpr ⟨ref, href, Or.inl rfl⟩⟩, ?_⟩,
      ⟨SwordModule.category (mgr.memory ref).toSWModule,
        (mem_modulesForCategory P mgr calls _ name).mpr ⟨ref, href, rfl⟩, ?_⟩⟩
    · rintro type ⟨hall, hname⟩
      obtain ⟨other, hother, htype⟩ := (mem_modulesForType P mgr calls type name).mp hname
      rw [href.unique hother] at htype
      exact (htype.resolve_right hall).symm
    · intro cat hname
      obtain ⟨other, hother, hcat⟩ := (mem_modulesForCategory P mgr calls cat name).mp hname
      rw [href.unique hother] at hcat
      exact hcat.symm

end ObjCSword.SwordManager
