import Mathlib.Data.List.Basic

/-!
# Lists made of pieces

Facts about lists that are put together piece by piece: a partial map is a concatenation of pieces
of at most one element, two concatenations of pieces of the same lengths agree exactly when the
pieces do, and two partial maps whose values can be read back agree exactly when they map the same
elements. A concatenation of pieces that are no longer than others has the length of theirs exactly
when each piece does. The last facts are about reading a text up to a separator.
-/

namespace Lib.Lists

variable {α γ δ : Type}

theorem filterMap_eq_flatMap_toList (f : α → Option γ) (l : List α) :
    l.filterMap f = l.flatMap fun a => (f a).toList := by
  induction l with
  | nil => rfl
  | cons a l ih =>
    rw [List.flatMap_cons, ← ih, List.filterMap_cons]
    cases f a with
    | none => rfl
    | some b => rfl

theorem flatMap_eq_iff {f g : α → List γ} {l : List α}
    (hlen : ∀ a ∈ l, (f a).length = (g a).length) :
    l.flatMap f = l.flatMap g ↔ ∀ a ∈ l, f a = g a := by
  induction l with
  | nil => exact ⟨fun _ a ha => absurd ha List.not_mem_nil, fun _ => rfl⟩
  | cons a l ih =>
    have hrest := ih fun b hb => hlen b (List.mem_cons_of_mem _ hb)
    rw [List.flatMap_cons, List.flatMap_cons, List.forall_mem_cons, ← hrest]
    constructor
    · exact fun h => List.append_inj h (hlen a List.mem_cons_self)
    · rintro ⟨hhead, htail⟩
      rw [hhead, htail]

/-- Where each value tells what it is the value of, a partial map of a list tells which elements it
was made of. -/
theorem filterMap_eq_iff (f : α → Option γ) (back : γ → α) {l l' : List α}
    (hl : ∀ a ∈ l, ∀ b, f a = some b → back b = a)
    (hl' : ∀ a ∈ l', ∀ b, f a = some b → back b = a) :
    l.filterMap f = l'.filterMap f ↔
      l.filter (fun a => (f a).isSome) = l'.filter (fun a => (f a).isSome) := by
  have hmap : ∀ l : List α, (∀ a ∈ l, ∀ b, f a = some b → back b = a) →
      (l.filterMap f).map back = l.filter (fun a => (f a).isSome) := by
    intro l hl
    induction l with
    | nil => rfl
    | cons a l ih =>
      have hrest := ih fun a ha => hl a (List.mem_cons_of_mem _ ha)
      rw [List.filterMap_cons, List.filter_cons]
      cases hf : f a with
      | none => exact hrest
      | some b =>
        show back b :: _ = a :: _
        rw [hl a List.mem_cons_self b hf, hrest]
  have hfilter : ∀ l : List α,
      (l.filter (fun a => (f a).isSome)).filterMap f = l.filterMap f := by
    intro l
    rw [List.filterMap_filter]
    congr 1
    funext a
    cases f a with
    | none => rfl
    | some b => rfl
  refine ⟨fun h => ?_, fun h => ?_⟩
  · rw [← hmap l hl, ← hmap l' hl', h]
  · rw [← hfilter l, ← hfilter l', h]

theorem length_flatMap_le {f : α → List γ} {g : α → List δ} {l : List α}
    (hle : ∀ a ∈ l, (f a).length ≤ (g a).length) :
    (l.flatMap f).length ≤ (l.flatMap g).length := by
  induction l with
  | nil => exact Nat.le_refl _
  | cons a l ih =>
    rw [List.flatMap_cons, List.flatMap_cons, List.length_append, List.length_append]
    exact Nat.add_le_add (hle a List.mem_cons_self)
      (ih fun b hb => hle b (List.mem_cons_of_mem _ hb))

/-- Where no piece is longer than its counterpart, nothing is lost only if nothing is lost of any
piece. -/
theorem length_eq_of_length_flatMap_eq {f : α → List γ} {g : α → List δ} {l : List α}
    (hle : ∀ a ∈ l, (f a).length ≤ (g a).length)
    (h : (l.flatMap f).length = (l.flatMap g).length) :
    ∀ a ∈ l, (f a).length = (g a).length := by
  induction l with
  | nil => exact fun a ha => absurd ha List.not_mem_nil
  | cons a l ih =>
    have hrest : ∀ b ∈ l, (f b).length ≤ (g b).length :=
      fun b hb => hle b (List.mem_cons_of_mem _ hb)
    have hhead := hle a List.mem_cons_self
    have htail := length_flatMap_le hrest
    rw [List.flatMap_cons, List.flatMap_cons, List.length_append, List.length_append] at h
    rw [List.forall_mem_cons]
    exact ⟨by omega, ih hrest (by omega)⟩

/-- What is read up to a separator is read of what stands before any. -/
theorem takeWhile_append_separator [DecidableEq α] (separator : α) (lead rest : List α) :
    (lead ++ separator :: rest).takeWhile (· ≠ separator) = lead.takeWhile (· ≠ separator) := by
  induction lead with
  | nil => exact List.takeWhile_cons_of_neg (by simp)
  | cons a lead ih =>
    rw [List.cons_append, List.takeWhile_cons, List.takeWhile_cons, ih]

/-- Two texts that do not hold the separator agree as soon as one is read up to it in the other. -/
theorem isPrefixOf_separator [BEq α] [LawfulBEq α] {separator : α} {a b : List α}
    (ha : separator ∉ a) (hb : separator ∉ b) (rest : List α) :
    (a ++ [separator]).isPrefixOf (b ++ separator :: rest) = true ↔ b = a := by
  induction a generalizing b with
  | nil =>
    cases b with
    | nil => simp [List.isPrefixOf]
    | cons y b =>
      have hne : separator ≠ y := fun h => hb (h ▸ List.mem_cons_self)
      simp [List.isPrefixOf, hne]
  | cons x a ih =>
    rw [List.mem_cons, not_or] at ha
    cases b with
    | nil => simp [List.isPrefixOf, Ne.symm ha.1]
    | cons y b =>
      have hrest := ih ha.2 fun h => hb (List.mem_cons_of_mem _ h)
      simp only [List.cons_append, List.isPrefixOf, Bool.and_eq_true, beq_iff_eq, hrest,
        List.cons.injEq]
      exact and_congr_left fun _ => eq_comm

end Lib.Lists
