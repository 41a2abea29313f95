import ObjCSword.Laws.InstalledModules

/-!
# The filters of the modules handed out

The render filters of a module say whether it was given its filters already, so they are attached
once, whatever is called and how often: a run hands out the modules that its calls ask for, each
with the filters of `filtersFor`. With the default provider these are the filters of the module's
own markup, but for GBF, where the filter classes wrap the engine's filters for ThML.
-/

namespace ObjCSword.SwordManager

open Sword

variable {Key : Type}

/-! ## A run -/

/-- The objects that a run hands out, and the manager then. -/
def run (P : FilterProvider) : SwordManager Key → List ManagerCall →
    List SwordModuleObject × SwordManager Key
  | mgr, [] => ([], mgr)
  | mgr, c :: calls =>
    let (objects, mgr) := call P mgr c
    let (rest, mgr) := run P mgr calls
    (objects ++ rest, mgr)

/-- A run hands out the modules that its calls ask for, with their filters. -/
theorem run_handsOut (P : FilterProvider) (mgr : SwordManager Key) (calls : List ManagerCall) :
    HandsOut P mgr (fun ref => ∃ c ∈ calls, Asked mgr c ref) (run P mgr calls) := by
  induction calls generalizing mgr with
  | nil =>
    refine ⟨Evolves.refl mgr, fun ref => ⟨?_, nofun⟩, nofun⟩
    rintro ⟨c, hc, -⟩
    exact absurd hc List.not_mem_nil
  | cons c calls ih =>
    have hcall := call_handsOut P mgr c
    have hrest := ih (call P mgr c).2
    have hrun : run P mgr (c :: calls) = ((call P mgr c).1 ++ (run P (call P mgr c).2 calls).1,
        (run P (call P mgr c).2 calls).2) := rfl
    rw [hrun]
    refine ⟨hcall.evolves.trans hrest.evolves, fun ref => ?_, fun obj hobj => ?_⟩
    · have hlater : (∃ d ∈ calls, Asked mgr d ref) ↔
          ∃ obj ∈ (run P (call P mgr c).2 calls).1, obj.swModule = ref := by
        rw [← hrest.handed ref]
        simp only [hcall.evolves.asked]
      simp only [List.mem_cons, List.mem_append, or_and_right, exists_or, exists_eq_left,
        hcall.handed ref, hlater]
    · rcases List.mem_append.mp hobj with hobj | hobj
      · have hkept := (hrest.evolves.memory obj.swModule).eq_of_ne_nil (hcall.filters obj hobj)
        rw [hkept]
        exact hcall.filters obj hobj
      · exact hrest.filters obj hobj

/-- What is asked for is stored. -/
theorem Asked.stored {mgr : SwordManager Key} {c : ManagerCall} {ref : Nat}
    (h : Asked mgr c ref) : ∃ name, Stored mgr name ref := by
  cases c with
  | moduleWithName name => exact ⟨name, h⟩
  | getSWModuleWithName name => exact h.elim
  | allModules => exact h
  | moduleNames => exact h.elim
  | modulesForType type => exact h.1
  | modulesForFeature feature => exact h.1
  | modulesForCategory cat => exact h.1

/-! ## Filters of the own markup -/

/-- GBF, ThML, OSIS or TEI. -/
def Formatted (markup : SWTextMarkup) : Prop := markup ≠ .plain ∧ markup ≠ .other

/-- A module, before and after, was given one render filter and one strip filter, both of its own
markup. -/
def OwnFilters (m m' : ManagedModule Key) : Prop :=
  ∃ render strip, m'.renderFilters = [render] ∧ m'.stripFilters = m.stripFilters ++ [strip] ∧
    (render.cls.markup = m.markup ∧ render.cls.writesPlain = false) ∧
    (strip.cls.markup = m.markup ∧ strip.cls.writesPlain = true)

/-- The classes of the default provider are of the own markup, but for GBF. -/
theorem filtersFor_default {markup : SWTextMarkup} (hformat : Formatted markup) :
    ∃ render strip, filtersFor DefaultFilterProvider markup = (render, [strip]) ∧
      ((render.markup = markup ∧ render.writesPlain = false) ∧
          (strip.markup = markup ∧ strip.writesPlain = true) ↔ markup ≠ .gbf) := by
  cases markup with
  | gbf => exact ⟨_, _, rfl, by decide⟩
  | thml => exact ⟨_, _, rfl, by decide⟩
  | osis => exact ⟨_, _, rfl, by decide⟩
  | tei => exact ⟨_, _, rfl, by decide⟩
  | plain => exact absurd rfl hformat.1
  | other => exact absurd rfl hformat.2

theorem Attached.ownFilters_iff {m m' : ManagedModule Key}
    (h : Attached DefaultFilterProvider m m') (hformat : Formatted m.markup) :
    OwnFilters m m' ↔ m.markup ≠ .gbf := by
  obtain ⟨render, strips, rfl, hrender, hstrips⟩ := h.after
  obtain ⟨renderClass, stripClass, hclasses, hown⟩ := filtersFor_default hformat
  rw [hclasses] at hrender hstrips
  obtain ⟨strip, rfl, hstrip⟩ := List.map_eq_singleton_iff.mp hstrips
  obtain rfl : render.cls = renderClass := hrender
  obtain rfl : strip.cls = stripClass := hstrip
  rw [← hown]
  constructor
  · rintro ⟨other, another, hrenders, hstrips, hother, hanother⟩
    cases hrenders
    cases List.append_cancel_left hstrips
    exact ⟨hother, hanother⟩
  · rintro ⟨hother, hanother⟩
    exact ⟨render, strip, rfl, rfl, hother, hanother⟩

/-- **The filters of the modules handed out.** Throughout a run, every module of one of the four
formats that was handed out has one render filter and one strip filter of the manager's, both of its
own markup, exactly when no call of the run asks for a GBF module. -/
theorem own_filters_iff (mgr : SwordManager Key)
    (hempty : ∀ name ref, Stored mgr name ref → (mgr.memory ref).renderFilters = [])
    (calls : List ManagerCall) :
    (∀ before, before <+: calls → ∀ obj ∈ (run DefaultFilterProvider mgr before).1,
        Formatted (mgr.memory obj.swModule).markup →
          OwnFilters (mgr.memory obj.swModule)
            ((run DefaultFilterProvider mgr before).2.memory obj.swModule)) ↔
      ∀ c ∈ calls, ∀ ref, Asked mgr c ref → (mgr.memory ref).markup ≠ .gbf := by
  have hattached : ∀ before, ∀ obj ∈ (run DefaultFilterProvider mgr before).1,
      Attached DefaultFilterProvider (mgr.memory obj.swModule)
        ((run DefaultFilterProvider mgr before).2.memory obj.swModule) := by
    intro before obj hobj
    have hrun := run_handsOut DefaultFilterProvider mgr before
    obtain ⟨c, -, hasked⟩ := (hrun.handed obj.swModule).mpr ⟨obj, hobj, rfl⟩
    obtain ⟨name, hname⟩ := hasked.stored
    rcases hrun.evolves.memory obj.swModule with hsame | hattached
    · have hfilters := hrun.filters obj hobj
      rw [hsame] at hfilters
      exact absurd (hempty name _ hname) hfilters
    · exact hattached
  constructor
  · intro hown c hc ref hasked hgbf
    have hrun := run_handsOut DefaultFilterProvider mgr calls
    obtain ⟨obj, hobj, rfl⟩ := (hrun.handed ref).mp ⟨c, hc, hasked⟩
    have hformat : Formatted (mgr.memory obj.swModule).markup := by
      rw [hgbf]
      exact ⟨nofun, nofun⟩
    exact ((hattached calls obj hobj).ownFilters_iff hformat).mp
      (hown calls (List.prefix_refl calls) obj hobj hformat) hgbf
  · intro hno before hbefore obj hobj hformat
    have hrun := run_handsOut DefaultFilterProvider mgr before
    obtain ⟨c, hc, hasked⟩ := (hrun.handed obj.swModule).mpr ⟨obj, hobj, rfl⟩
    exact ((hattached before obj hobj).ownFilters_iff hformat).mpr
      (hno c (hbefore.subset hc) obj.swModule hasked)

/-- An OSIS module that is handed out twice has its own filters then. -/
theorem own_filters_osis :
    let out := run DefaultFilterProvider (managerOf (plainModule "KJV" .osis))
      [.moduleWithName "KJV", .allModules]
    out.1.map (·.swModule) = [0, 0] ∧
      OwnFilters (plainModule "KJV" .osis) (out.2.memory 0) := by
  refine ⟨rfl, ?_⟩
  refine (own_filters_iff (managerOf (plainModule "KJV" .osis)) (fun _ _ _ => rfl)
    [.moduleWithName "KJV", .allModules]).mpr ?_ _ (List.prefix_refl _) ⟨0, 1, .bible⟩ ?_ ?_
  · exact fun _ _ _ _ => nofun
  · decide
  · exact ⟨nofun, nofun⟩

/-- A GBF module is given the filters for ThML. -/
theorem gbf_module_has_thml_filters :
    let out := run DefaultFilterProvider (managerOf (plainModule "Wycliffe" .gbf))
      [.moduleWithName "Wycliffe"]
    out.1.map (·.swModule) = [0] ∧
      (out.2.memory 0).renderFilters.map (·.cls) = [.ThMLHTMLHREF] ∧
      (out.2.memory 0).stripFilters.map (·.cls) = [.ThMLPlain] := by
  decide

end ObjCSword.SwordManager
