import Mathlib.Data.List.Nodup
import Mathlib.Logic.Function.Basic
import Mathlib.Logic.Relation

/-!
# Handles on objects that somebody has to free

Objects are made one after the other and freed by hand. Each is reached through handles. The handle
an object is made with owns it: when it is dropped the object is freed. A handle may give its object
to a store, which holds it from then on and may let it go again; the handle stays, and owns nothing
any more. What the store holds may be viewed through further handles, which own nothing.

In every run no handle and nothing held is an object that was freed, and no object is freed twice
(`Sound`). When all handles are dropped the objects that were freed are those that were never given
to the store (`Sound.freed_iff`): to free the others is up to the store.
-/

namespace Lib.Handles

/-- A handle, and whether its object is freed with it. -/
structure Handle where
  object : Nat
  owns : Bool
deriving DecidableEq

/-- The objects are numbered as they are made. `given` are those that the store was given at some
time, `held` those that it holds. -/
structure State where
  next : Nat
  freed : List Nat
  handles : Nat → Option Handle
  held : Nat → Prop
  given : Nat → Prop

/-- There are no handles yet, and some objects that the store has from elsewhere. -/
def initial (count : Nat) (held : Nat → Prop) : State :=
  ⟨count, [], fun _ => none, held, fun object => object < count⟩

/-- What may be done. -/
inductive Step (s : State) : State → Prop
  | make {h : Nat} (new : s.handles h = none) :
    Step s { s with
      next := s.next + 1
      handles := Function.update s.handles h (some ⟨s.next, true⟩) }
  | view {h object : Nat} (new : s.handles h = none) (held : s.held object) :
    Step s { s with handles := Function.update s.handles h (some ⟨object, false⟩) }
  | give {h : Nat} {handle : Handle} (live : s.handles h = some handle) :
    Step s { s with
      handles := Function.update s.handles h (some { handle with owns := false })
      held := fun object => object = handle.object ∨ s.held object
      given := fun object => object = handle.object ∨ s.given object }
  | letGo {held : Nat → Prop} (less : ∀ object, held object → s.held object) :
    Step s { s with held := held }
  | drop {h : Nat} {handle : Handle} (live : s.handles h = some handle) :
    Step s { s with
      handles := Function.update s.handles h none
      freed := if handle.owns then handle.object :: s.freed else s.freed }

/-- What holds in every run. -/
structure Sound (s : State) : Prop where
  handle_alive : ∀ h handle, s.handles h = some handle →
    handle.object < s.next ∧ handle.object ∉ s.freed
  held_alive : ∀ object, s.held object → object < s.next ∧ object ∉ s.freed
  held_given : ∀ object, s.held object → s.given object
  given_made : ∀ object, s.given object → object < s.next
  /-- An owner's object was not given to the store, and has no other handle. -/
  owner : ∀ h handle, s.handles h = some handle → handle.owns = true →
    ¬ s.given handle.object ∧
      ∀ h' handle', s.handles h' = some handle' → handle'.object = handle.object → h' = h
  freed_once : s.freed.Nodup
  freed_made : ∀ object ∈ s.freed, object < s.next ∧ ¬ s.given object
  /-- What was not given to the store is freed or has an owner. -/
  not_given : ∀ object < s.next, ¬ s.given object →
    object ∈ s.freed ∨ ∃ h, s.handles h = some ⟨object, true⟩

theorem sound_initial {count : Nat} {held : Nat → Prop}
    (hmade : ∀ object, held object → object < count) : Sound (initial count held) where
  handle_alive _ _ h := nomatch h
  held_alive object h := ⟨hmade object h, List.not_mem_nil⟩
  held_given object h := hmade object h
  given_made _ h := h
  owner _ _ h := nomatch h
  freed_once := List.nodup_nil
  freed_made _ h := absurd h List.not_mem_nil
  not_given _ hmade hgiven := absurd hmade hgiven

/-- A handle after one of them was changed. -/
theorem of_update {handles : Nat → Option Handle} {h h' : Nat} {changed : Option Handle}
    {handle : Handle} (hupdate : Function.update handles h changed h' = some handle) :
    h' = h ∧ changed = some handle ∨ h' ≠ h ∧ handles h' = some handle := by
  by_cases heq : h' = h
  · subst heq
    rw [Function.update_self] at hupdate
    exact Or.inl ⟨rfl, hupdate⟩
  · rw [Function.update_of_ne heq] at hupdate
    exact Or.inr ⟨heq, hupdate⟩

theorem Sound.make {s : State} (hs : Sound s) {h : Nat} (new : s.handles h = none) :
    Sound { s with
      next := s.next + 1
      handles := Function.update s.handles h (some ⟨s.next, true⟩) } where
  handle_alive h' handle hlive := by
    rcases of_update hlive with ⟨-, heq⟩ | ⟨-, hold⟩
    · cases heq
      exact ⟨Nat.lt_succ_self _, fun hmem => Nat.lt_irrefl _ (hs.freed_made _ hmem).1⟩
    · obtain ⟨hlt, hfree⟩ := hs.handle_alive h' handle hold
      exact ⟨Nat.lt_succ_of_lt hlt, hfree⟩
  held_alive object hheld :=
    ⟨Nat.lt_succ_of_lt (hs.held_alive object hheld).1, (hs.held_alive object hheld).2⟩
  held_given := hs.held_given
  given_made object hgiven := Nat.lt_succ_of_lt (hs.given_made object hgiven)
  owner h' handle hlive howns := by
    rcases of_update hlive with ⟨hh, heq⟩ | ⟨-, hold⟩
    · cases heq
      refine ⟨fun hgiven => Nat.lt_irrefl _ (hs.given_made _ hgiven),
        fun h'' handle' hlive' hsame => ?_⟩
      rcases of_update hlive' with ⟨hh', -⟩ | ⟨-, hold'⟩
      · exact hh'.trans hh.symm
      · have hlt := (hs.handle_alive h'' handle' hold').1
        rw [hsame] at hlt
        exact absurd hlt (Nat.lt_irrefl _)
    · obtain ⟨hgiven, halone⟩ := hs.owner h' handle hold howns
      refine ⟨hgiven, fun h'' handle' hlive' hsame => ?_⟩
      rcases of_update hlive' with ⟨-, heq⟩ | ⟨-, hold'⟩
      · cases heq
        have hlt := (hs.handle_alive h' handle hold).1
        rw [← hsame] at hlt
        exact absurd hlt (Nat.lt_irrefl _)
      · exact halone h'' handle' hold' hsame
  freed_once := hs.freed_once
  freed_made object hmem :=
    ⟨Nat.lt_succ_of_lt (hs.freed_made object hmem).1, (hs.freed_made object hmem).2⟩
  not_given object hlt hgiven := by
    rcases Nat.lt_succ_iff_lt_or_eq.mp hlt with hlt | rfl
    · rcases hs.not_given object hlt hgiven with hfreed | ⟨h', hlive⟩
      · exact Or.inl hfreed
      · have hne : h' ≠ h := by
          rintro rfl
          rw [new] at hlive
          cases hlive
        exact Or.inr ⟨h', (Function.update_of_ne hne _ _).trans hlive⟩
    · exact Or.inr ⟨h, Function.update_self _ _ _⟩

theorem Sound.view {s : State} (hs : Sound s) {h object : Nat} (new : s.handles h = none)
    (held : s.held object) :
    Sound { s with handles := Function.update s.handles h (some ⟨object, false⟩) } where
  handle_alive h' handle hlive := by
    rcases of_update hlive with ⟨-, heq⟩ | ⟨-, hold⟩
    · cases heq
      exact hs.held_alive object held
    · exact hs.handle_alive h' handle hold
  held_alive := hs.held_alive
  held_given := hs.held_given
  given_made := hs.given_made
  owner h' handle hlive howns := by
    rcases of_update hlive with ⟨-, heq⟩ | ⟨-, hold⟩
    · cases heq
      cases howns
    · obtain ⟨hgiven, halone⟩ := hs.owner h' handle hold howns
      refine ⟨hgiven, fun h'' handle' hlive' hsame => ?_⟩
      rcases of_update hlive' with ⟨-, heq⟩ | ⟨-, hold'⟩
      · -- the owner's object is not in the store
        cases heq
        rw [← hsame] at hgiven
        exact absurd (hs.held_given object held) hgiven
      · exact halone h'' handle' hold' hsame
  freed_once := hs.freed_once
  freed_made := hs.freed_made
  not_given object' hlt hgiven := by
    rcases hs.not_given object' hlt hgiven with hfreed | ⟨h', hlive⟩
    · exact Or.inl hfreed
    · have hne : h' ≠ h := by
        rintro rfl
        rw [new] at hlive
        cases hlive
      exact Or.inr ⟨h', (Function.update_of_ne hne _ _).trans hlive⟩

theorem Sound.give {s : State} (hs : Sound s) {h : Nat} {handle : Handle}
    (live : s.handles h = some handle) :
    Sound { s with
      handles := Function.update s.handles h (some { handle with owns := false })
      held := fun object => object = handle.object ∨ s.held object
      given := fun object => object = handle.object ∨ s.given object } where
  handle_alive h' handle' hlive := by
    rcases of_update hlive with ⟨-, heq⟩ | ⟨-, hold⟩
    · cases heq
      exact hs.handle_alive h handle live
    · exact hs.handle_alive h' handle' hold
  held_alive object hheld := by
    rcases hheld with rfl | hheld
    · exact hs.handle_alive h handle live
    · exact hs.held_alive object hheld
  held_given object hheld := hheld.imp_right (hs.held_given object)
  given_made object hgiven := by
    rcases hgiven with rfl | hgiven
    · exact (hs.handle_alive h handle live).1
    · exact hs.given_made object hgiven
  owner h' handle' hlive howns := by
    rcases of_update hlive with ⟨-, heq⟩ | ⟨hne, hold⟩
    · cases heq
      cases howns
    · obtain ⟨hgiven, halone⟩ := hs.owner h' handle' hold howns
      -- an owner has its object for itself, so it is not the one that is given
      have hother : handle'.object ≠ handle.object :=
        fun hsame => hne (halone h handle live hsame.symm).symm
      refine ⟨not_or.mpr ⟨hother, hgiven⟩, fun h'' handle'' hlive' hsame => ?_⟩
      rcases of_update hlive' with ⟨-, heq⟩ | ⟨-, hold'⟩
      · cases heq
        exact absurd hsame.symm hother
      · exact halone h'' handle'' hold' hsame
  freed_once := hs.freed_once
  freed_made object hmem := by
    obtain ⟨hlt, hgiven⟩ := hs.freed_made object hmem
    refine ⟨hlt, not_or.mpr ⟨?_, hgiven⟩⟩
    rintro rfl
    exact (hs.handle_alive h handle live).2 hmem
  not_given object hlt hgiven := by
    obtain ⟨hother, hgiven⟩ := not_or.mp hgiven
    rcases hs.not_given object hlt hgiven with hfreed | ⟨h', hlive⟩
    · exact Or.inl hfreed
    · have hne : h' ≠ h := by
        rintro rfl
        rw [live] at hlive
        cases hlive
        exact hother rfl
      exact Or.inr ⟨h', (Function.update_of_ne hne _ _).trans hlive⟩

theorem Sound.letGo {s : State} (hs : Sound s) {held : Nat → Prop}
    (less : ∀ object, held object → s.held object) : Sound { s with held := held } where
  handle_alive := hs.handle_alive
  held_alive object hheld := hs.held_alive object (less object hheld)
  held_given object hheld := hs.held_given object (less object hheld)
  given_made := hs.given_made
  owner := hs.owner
  freed_once := hs.freed_once
  freed_made := hs.freed_made
  not_given := hs.not_given

/-- The owners that are left when a handle is dropped. -/
theorem Sound.owner_of_drop {s : State} (hs : Sound s) {h h' : Nat} {handle : Handle}
    (hlive : Function.update s.handles h none h' = some handle) (howns : handle.owns = true) :
    ¬ s.given handle.object ∧ ∀ h'' handle', Function.update s.handles h none h'' = some handle' →
      handle'.object = handle.object → h'' = h' := by
  rcases of_update hlive with ⟨-, heq⟩ | ⟨-, hold⟩
  · cases heq
  · obtain ⟨hgiven, halone⟩ := hs.owner h' handle hold howns
    refine ⟨hgiven, fun h'' handle' hlive' hsame => ?_⟩
    rcases of_update hlive' with ⟨-, heq⟩ | ⟨-, hold'⟩
    · cases heq
    · exact halone h'' handle' hold' hsame

/-- A handle that owns nothing is dropped. -/
theorem Sound.drop_view {s : State} (hs : Sound s) {h : Nat} {handle : Handle}
    (live : s.handles h = some handle) (howns : handle.owns = false) :
    Sound { s with handles := Function.update s.handles h none } where
  handle_alive h' handle' hlive := by
    rcases of_update hlive with ⟨-, heq⟩ | ⟨-, hold⟩
    · cases heq
    · exact hs.handle_alive h' handle' hold
  held_alive := hs.held_alive
  held_given := hs.held_given
  given_made := hs.given_made
  owner _ _ hlive howns' := hs.owner_of_drop hlive howns'
  freed_once := hs.freed_once
  freed_made := hs.freed_made
  not_given object hlt hgiven := by
    rcases hs.not_given object hlt hgiven with hfreed | ⟨h', hlive⟩
    · exact Or.inl hfreed
    · have hne : h' ≠ h := by
        rintro rfl
        rw [live] at hlive
        cases hlive
        cases howns
      exact Or.inr ⟨h', (Function.update_of_ne hne _ _).trans hlive⟩

/-- An owner is dropped, and its object freed. -/
theorem Sound.drop_owner {s : State} (hs : Sound s) {h : Nat} {handle : Handle}
    (live : s.handles h = some handle) (howns : handle.owns = true) :
    Sound { s with
      handles := Function.update s.handles h none
      freed := handle.object :: s.freed } where
  handle_alive h' handle' hlive := by
    rcases of_update hlive with ⟨-, heq⟩ | ⟨hne, hold⟩
    · cases heq
    · obtain ⟨hlt, hfree⟩ := hs.handle_alive h' handle' hold
      refine ⟨hlt, fun hmem => ?_⟩
      rcases List.mem_cons.mp hmem with hsame | hmem
      · exact hne ((hs.owner h handle live howns).2 h' handle' hold hsame)
      · exact hfree hmem
  held_alive object hheld := by
    obtain ⟨hlt, hfree⟩ := hs.held_alive object hheld
    refine ⟨hlt, fun hmem => ?_⟩
    rcases List.mem_cons.mp hmem with rfl | hmem
    · exact (hs.owner h handle live howns).1 (hs.held_given _ hheld)
    · exact hfree hmem
  held_given := hs.held_given
  given_made := hs.given_made
  owner _ _ hlive howns' := hs.owner_of_drop hlive howns'
  freed_once := List.nodup_cons.mpr ⟨(hs.handle_alive h handle live).2, hs.freed_once⟩
  freed_made object hmem := by
    rcases List.mem_cons.mp hmem with rfl | hmem
    · exact ⟨(hs.handle_alive h handle live).1, (hs.owner h handle live howns).1⟩
    · exact hs.freed_made object hmem
  not_given object hlt hgiven := by
    rcases hs.not_given object hlt hgiven with hfreed | ⟨h', hlive⟩
    · exact Or.inl (List.mem_cons_of_mem _ hfreed)
    · by_cases hsame : h' = h
      · subst hsame
        rw [live] at hlive
        cases hlive
        exact Or.inl List.mem_cons_self
      · exact Or.inr ⟨h', (Function.update_of_ne hsame _ _).trans hlive⟩

theorem Sound.step {s s' : State} (hs : Sound s) (hstep : Step s s') : Sound s' := by
  cases hstep with
  | make new => exact hs.make new
  | view new held => exact hs.view new held
  | give live => exact hs.give live
  | letGo less => exact hs.letGo less
  | @drop h handle live =>
    cases howns : handle.owns with
    | false => exact hs.drop_view live howns
    | true => exact hs.drop_owner live howns

/-- **In every run** no handle and nothing held was freed, and nothing was freed twice. -/
theorem Sound.steps {s s' : State} (hs : Sound s) (hsteps : Relation.ReflTransGen Step s s') :
    Sound s' := by
  induction hsteps with
  | refl => exact hs
  | tail _ hstep ih => exact ih.step hstep

/-- When all handles are dropped, what was freed is what was never given to the store. -/
theorem Sound.freed_iff {s : State} (hs : Sound s) (hdropped : ∀ h, s.handles h = none)
    {object : Nat} (hmade : object < s.next) : object ∈ s.freed ↔ ¬ s.given object := by
  constructor
  · exact fun hmem => (hs.freed_made object hmem).2
  · intro hgiven
    rcases hs.not_given object hmade hgiven with hfreed | ⟨h, hlive⟩
    · exact hfreed
    · rw [hdropped h] at hlive
      cases hlive

end Lib.Handles
