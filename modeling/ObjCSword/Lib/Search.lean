import Mathlib.Data.List.Basic

/-!
# Looking for the first

A loop that leaves at the first element it wants is `List.find?`, and two nested ones that leave
together search the pairs of their lists (`findSome?_find?`). What is found does not depend on the
order where one element at most is wanted (`find?_eq_of_iff`). Otherwise it has a property exactly
when no element that is wanted and has it not comes before all that have it (`find?_holds_iff`).
-/

namespace Lib.Search

variable {α γ : Type}

/-- Where one element at most is looked for, the order of the list does not matter. -/
theorem find?_eq_of_iff {p : α → Bool} {l : List α} {target : Option α}
    (h : ∀ a, (a ∈ l ∧ p a = true) ↔ target = some a) : l.find? p = target := by
  cases hfind : l.find? p with
  | none =>
    cases target with
    | none => rfl
    | some a =>
      obtain ⟨hmem, hp⟩ := (h a).mpr rfl
      exact absurd hp (List.find?_eq_none.mp hfind a hmem)
  | some a => exact ((h a).mp ⟨List.mem_of_find?_eq_some hfind, List.find?_some hfind⟩).symm

/-- What is found first has a property exactly when something that has it is found with nothing
before it that is found and has not. -/
theorem find?_holds_iff {p : α → Bool} {Q : α → Prop} {l : List α} :
    (∃ a, l.find? p = some a ∧ Q a) ↔ ∃ before a after, l = before ++ a :: after ∧ p a = true ∧
      Q a ∧ ∀ b ∈ before, p b = true → Q b := by
  constructor
  · rintro ⟨a, hfind, hQ⟩
    obtain ⟨hp, before, after, hl, hbefore⟩ := List.find?_eq_some_iff_append.mp hfind
    refine ⟨before, a, after, hl, hp, hQ, fun b hb hpb => ?_⟩
    have hno := hbefore b hb
    rw [hpb] at hno
    exact absurd hno Bool.false_ne_true
  · rintro ⟨before, a, after, rfl, hp, hQ, hbefore⟩
    rw [List.find?_append, List.find?_cons_of_pos hp]
    cases hfind : before.find? p with
    | none => exact ⟨a, rfl, hQ⟩
    | some b =>
      exact ⟨b, rfl, hbefore b (List.mem_of_find?_eq_some hfind) (List.find?_some hfind)⟩

/-- The pairs of two lists, in the order in which two nested loops come to them. -/
def pairs (xs : List α) (ys : List γ) : List (α × γ) := xs.flatMap fun x => ys.map fun y => (x, y)

theorem mem_pairs {xs : List α} {ys : List γ} {pair : α × γ} :
    pair ∈ pairs xs ys ↔ pair.1 ∈ xs ∧ pair.2 ∈ ys := by
  rw [pairs, List.mem_flatMap]
  constructor
  · rintro ⟨x, hx, hpair⟩
    obtain ⟨y, hy, rfl⟩ := List.mem_map.mp hpair
    exact ⟨hx, hy⟩
  · rintro ⟨hx, hy⟩
    exact ⟨pair.1, hx, List.mem_map.mpr ⟨pair.2, hy, rfl⟩⟩

/-- A search in one list for each element of another is a search of their pairs. -/
theorem findSome?_find? (p : α → γ → Bool) (xs : List α) (ys : List γ) :
    (xs.findSome? fun x => ys.find? (p x)) =
      ((pairs xs ys).find? fun pair => p pair.1 pair.2).map Prod.snd := by
  induction xs with
  | nil => rfl
  | cons x xs ih =>
    have hrow : ((ys.map fun y => (x, y)).find? fun pair => p pair.1 pair.2).map Prod.snd =
        ys.find? (p x) := by
      rw [List.find?_map, Option.map_map]
      exact Option.map_id'
    rw [List.findSome?_cons, pairs, List.flatMap_cons, List.find?_append, Option.map_or, hrow, ih]
    cases ys.find? (p x) with
    | none => rfl
    | some y => rfl

end Lib.Search
