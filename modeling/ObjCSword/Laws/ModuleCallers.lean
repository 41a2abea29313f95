import ObjCSword.Laws.Callers
import ObjCSword.Laws.ModuleFilters

/-!
# Callers with the objects of a manager

Each call of `moduleWithName:` makes an object, and a lock with it, for the module that the manager
keeps. The lock of an object is the address that was free when it was made, so two callers have one
lock exactly when they got their objects from one call (`moduleLock_eq_iff`): callers who asked
separately are not kept apart.
-/

namespace ObjCSword

open Sword

variable {ι Key : Type}

namespace SwordManager

theorem run_append_snd (P : FilterProvider) (mgr : SwordManager Key)
    (calls rest : List ManagerCall) :
    (run P mgr (calls ++ rest)).2 = (run P (run P mgr calls).2 rest).2 := by
  induction calls generalizing mgr with
  | nil => rfl
  | cons c calls ih => exact ih (call P mgr c).2

/-- The callers of one module: in a run of its manager each has asked `moduleWithName:` for an
object, after some calls, and reads a reference through it. -/
structure Callers (P : FilterProvider) (mgr : SwordManager Key) (ι : Type) where
  name : String
  ref : Nat
  stored : Stored mgr name ref
  calls : List ManagerCall
  before : ι → List ManagerCall
  asked : ∀ i, before i ++ [.moduleWithName name] <+: calls
  object : ι → SwordModuleObject
  object_eq : ∀ i, (moduleWithName P name (run P mgr (before i)).2).1 = some (object i)
  aKeyString : ι → Option String
  aType : ι → RenderType

namespace Callers

variable {P : FilterProvider} {mgr : SwordManager Key}

/-- The engine module that the objects wrap. -/
def swModule (c : Callers P mgr ι) : SWModule Key := (mgr.memory c.ref).toSWModule

def entryCall (c : Callers P mgr ι) (i : ι) : SwordModule.EntryCall :=
  ⟨(c.object i).moduleLock, c.aKeyString i, c.aType i⟩

/-- The text at the reference of `j`, of the type that `i` reads. -/
def textFor (c : Callers P mgr ι) (i j : ι) : Option String :=
  SwordModule.textAt c.swModule (c.aType i) (SwordModule.keyOf c.swModule (c.aKeyString j))

theorem stored_before (c : Callers P mgr ι) (i : ι) :
    Stored (run P mgr (c.before i)).2 c.name c.ref :=
  ((run_handsOut P mgr (c.before i)).evolves.stored c.name c.ref).mpr c.stored

/-- Each object wraps the one module, and has the lock that was made for it. -/
theorem object_spec (c : Callers P mgr ι) (i : ι) :
    (c.object i).swModule = c.ref ∧
      (c.object i).moduleLock = (run P mgr (c.before i)).2.next := by
  have hobject := c.object_eq i
  rw [(moduleWithName_stored P (c.stored_before i)).1] at hobject
  rw [← Option.some.inj hobject]
  exact ⟨rfl, rfl⟩

theorem moduleLock_lt (c : Callers P mgr ι) {i j : ι}
    (h : c.before i ++ [.moduleWithName c.name] <+: c.before j) :
    (c.object i).moduleLock < (c.object j).moduleLock := by
  obtain ⟨rest, hrest⟩ := h
  have hasked : (run P mgr (c.before i ++ [.moduleWithName c.name])).2 =
      (moduleWithName P c.name (run P mgr (c.before i)).2).2 :=
    run_append_snd P mgr _ _
  have hlater :=
    (run_handsOut P (run P mgr (c.before i ++ [.moduleWithName c.name])).2 rest).evolves
  have hle := hlater.next_le
  rw [← run_append_snd, hrest] at hle
  rw [(c.object_spec i).2, (c.object_spec j).2]
  calc (run P mgr (c.before i)).2.next
      < (moduleWithName P c.name (run P mgr (c.before i)).2).2.next :=
        moduleWithName_next P (c.stored_before i)
    _ = (run P mgr (c.before i ++ [.moduleWithName c.name])).2.next := by rw [hasked]
    _ ≤ (run P mgr (c.before j)).2.next := hle

/-- Two callers have one lock exactly when they got their objects from the same call. -/
theorem moduleLock_eq_iff (c : Callers P mgr ι) {i j : ι} :
    (c.object i).moduleLock = (c.object j).moduleLock ↔ c.before i = c.before j := by
  constructor
  · intro hlock
    have hlength : ∀ {i j : ι}, (c.before i).length < (c.before j).length →
        c.before i ++ [.moduleWithName c.name] <+: c.before j := by
      intro i j hlt
      refine List.prefix_of_prefix_length_le (c.asked i)
        ((List.prefix_append _ _).trans (c.asked j)) ?_
      rw [List.length_append]
      exact hlt
    rcases Nat.lt_trichotomy (c.before i).length (c.before j).length with hlt | heq | hlt
    · exact absurd hlock (Nat.ne_of_lt (c.moduleLock_lt (hlength hlt)))
    · have hi := (List.prefix_append (c.before i) _).trans (c.asked i)
      have hj := (List.prefix_append (c.before j) _).trans (c.asked j)
      exact (List.prefix_of_prefix_length_le hi hj (Nat.le_of_eq heq)).eq_of_length heq
    · exact absurd hlock.symm (Nat.ne_of_lt (c.moduleLock_lt (hlength hlt)))
  · intro hbefore
    rw [(c.object_spec i).2, (c.object_spec j).2, hbefore]

/-- **Whether callers get their own texts.** In every interleaving every entry that is returned has
the text of its reference exactly when callers whose objects come from different calls of
`moduleWithName:` have the same text at their references. -/
theorem own_text_iff [DecidableEq ι] (c : Callers P mgr ι) (m : ModuleState Key) :
    (∀ schedule i entry, (Lib.Interleaving.run (SwordModule.turn c.swModule c.entryCall)
          (SwordModule.start m) schedule).callers i = .returned (some entry) →
        entry.key = c.aKeyString i ∧ c.textFor i i = some entry.text) ↔
      ∀ i j, c.before i ≠ c.before j →
        ∀ text, c.textFor i j = some text → c.textFor i i = some text := by
  constructor
  · intro hown i j hbefore text htext
    have hlock : (c.entryCall j).moduleLock ≠ (c.entryCall i).moduleLock := fun heq =>
      hbefore (c.moduleLock_eq_iff.mp heq).symm
    have hrun := SwordModule.overtaken c.swModule m hlock
    have htextAt : SwordModule.textAt c.swModule (c.entryCall i).aType
        (SwordModule.keyFor c.swModule c.entryCall j) = some text := htext
    rw [htextAt, Option.map_some] at hrun
    exact (hown _ i _ hrun).2
  · intro hsame schedule i entry hreturned
    have hreads := SwordModule.readsAt_run c.swModule c.entryCall m schedule i
    rw [hreturned] at hreads
    obtain ⟨hkey, j, hj, htext⟩ := hreads entry rfl
    refine ⟨hkey, ?_⟩
    rcases hj with rfl | hlock
    · exact htext
    · exact hsame i j (fun hbefore => hlock (c.moduleLock_eq_iff.mpr hbefore.symm)) entry.text htext

end Callers

/-- A dictionary of two entries. The key is whether it stands on the second. -/
def twoEntries : ManagedModule Bool where
  setText _ text := text = some "CAIN"
  getText second := if second then "CAIN" else "ABEL"
  createKey := false
  error _ := false
  renderText second := some (if second then "a possession" else "a breath")
  stripText second := some (if second then "a possession" else "a breath")
  entryAttributes _ := ∅
  getConfigEntry _ := none
  has _ _ := false
  globalOption _ := false
  name := "Easton"
  type := SWMOD_TYPES_DICTIONARIES
  markup := .thml
  renderFilters := []
  stripFilters := []

/-- Two callers, each of which has asked for an object and reads an entry. -/
def twoCallers : Callers DefaultFilterProvider (managerOf twoEntries) Bool where
  name := "Easton"
  ref := 0
  stored := rfl
  calls := [.moduleWithName "Easton", .moduleWithName "Easton"]
  before second := if second then [.moduleWithName "Easton"] else []
  asked second := by
    cases second with
    | false => exact ⟨[.moduleWithName "Easton"], rfl⟩
    | true => exact List.prefix_refl _
  object second := ⟨0, if second then 4 else 1, .dictionary⟩
  object_eq second := by
    cases second with
    | false => rfl
    | true => rfl
  aKeyString second := some (if second then "CAIN" else "ABEL")
  aType _ := .rendered

/-- The caller of the first entry is returned the text of the second. -/
theorem text_of_other_caller :
    (Lib.Interleaving.run (SwordModule.turn twoCallers.swModule twoCallers.entryCall)
        (SwordModule.start ⟨false, false, ∅⟩)
        [false, false, true, true, true, false, false, false]).callers false =
      .returned (some { key := some "ABEL", text := "a possession" }) ∧
    twoCallers.textFor false false = some "a breath" :=
  ⟨rfl, rfl⟩

end SwordManager

end ObjCSword
