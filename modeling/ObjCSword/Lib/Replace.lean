import Mathlib.Data.List.Basic

/-!
# Replacing every occurrence of a block

One walk from the left over a sequence: where the target starts, the replacement is written and the
rest of the occurrence is skipped, and where it does not, the item is kept. What a replacement does
to a sequence is known piece by piece: a piece without the target's first item is kept
(`replace_append_of_not_mem`), the target itself is replaced (`replace_occurrence`), and the first
item of anything else is kept (`replace_cons_of_miss`).
-/

namespace Lib.Replace

variable {α : Type} [DecidableEq α]

/-- The walk. The counter is the rest of an occurrence that was just replaced. -/
def replace (target replacement : List α) : Nat → List α → List α
  | _, [] => []
  | skip + 1, _ :: rest => replace target replacement skip rest
  | 0, a :: rest =>
    if target.isPrefixOf (a :: rest) then
      replacement ++ replace target replacement (target.length - 1) rest
    else a :: replace target replacement 0 rest

variable {target replacement : List α}

private theorem replace_skip (skipped rest : List α) :
    replace target replacement skipped.length (skipped ++ rest) =
      replace target replacement 0 rest := by
  induction skipped with
  | nil => rfl
  | cons a skipped ih =>
    rw [List.length_cons, List.cons_append, replace]
    exact ih

/-- The target at the front is replaced. -/
theorem replace_occurrence (hne : target ≠ []) (rest : List α) :
    replace target replacement 0 (target ++ rest) =
      replacement ++ replace target replacement 0 rest := by
  cases target with
  | nil => exact absurd rfl hne
  | cons a tail =>
    have hhead : (a :: tail).isPrefixOf (a :: tail ++ rest) = true :=
      List.isPrefixOf_iff_prefix.mpr (List.prefix_append _ _)
    rw [List.cons_append] at hhead ⊢
    rw [replace, if_pos hhead, List.length_cons, Nat.add_sub_cancel, replace_skip]

/-- Where the target does not start, the first item is kept. -/
theorem replace_cons_of_miss {a : α} {rest : List α}
    (h : target.isPrefixOf (a :: rest) = false) :
    replace target replacement 0 (a :: rest) = a :: replace target replacement 0 rest := by
  rw [replace, h]
  rfl

/-- A piece that does not hold the target's first item is kept. -/
theorem replace_append_of_not_mem {a : α} {tail piece : List α} (ha : a ∉ piece)
    (rest : List α) :
    replace (a :: tail) replacement 0 (piece ++ rest) =
      piece ++ replace (a :: tail) replacement 0 rest := by
  induction piece with
  | nil => rfl
  | cons b piece ih =>
    rw [List.mem_cons, not_or] at ha
    obtain ⟨hne, hrest⟩ := ha
    have hhead : (a :: tail).isPrefixOf (b :: (piece ++ rest)) = false := by
      rw [List.isPrefixOf, beq_false_of_ne hne, Bool.false_and]
    rw [List.cons_append, replace_cons_of_miss hhead, ih hrest, List.cons_append]

/-- A target of one item is replaced item by item. -/
theorem replace_singleton (a : α) (replacement s : List α) :
    replace [a] replacement 0 s = s.flatMap fun b => if b = a then replacement else [b] := by
  induction s with
  | nil => rfl
  | cons b s ih =>
    rw [List.flatMap_cons, ← ih]
    by_cases h : b = a
    · rw [if_pos h, h]
      exact replace_occurrence (List.cons_ne_nil a []) s
    · have hb : a ∉ [b] := fun hmem => h (List.mem_singleton.mp hmem).symm
      rw [if_neg h]
      exact replace_append_of_not_mem hb s

/-- Replacing one item by another. -/
theorem replace_singleton_by (a b : α) (s : List α) :
    replace [a] [b] 0 s = s.map fun c => if c = a then b else c := by
  rw [replace_singleton, List.map_eq_flatMap]
  congr 1
  funext c
  split
  · rfl
  · rfl

/-- Replacing one item by nothing. -/
theorem replace_singleton_nil (a : α) (s : List α) : replace [a] [] 0 s = s.filter (· ≠ a) := by
  rw [replace_singleton]
  induction s with
  | nil => rfl
  | cons c s ih =>
    rw [List.flatMap_cons, ih]
    by_cases h : c = a
    · rw [if_pos h, List.nil_append, List.filter_cons_of_neg (by simp [h])]
    · rw [if_neg h, List.singleton_append, List.filter_cons_of_pos (by simp [h])]

/-- Nothing is replaced in a sequence that does not hold the target's first item. -/
theorem replace_of_not_mem {a : α} {tail piece : List α} (ha : a ∉ piece) :
    replace (a :: tail) replacement 0 piece = piece := by
  have h : replace (a :: tail) replacement 0 (piece ++ []) = piece ++ [] :=
    replace_append_of_not_mem ha []
  rwa [List.append_nil] at h

/-- Replacing the separator of a joined list of pieces joins them with the replacement. -/
theorem replace_intercalate {a : α} {tail : List α} {pieces : List (List α)}
    (ha : ∀ piece ∈ pieces, a ∉ piece) :
    replace (a :: tail) replacement 0 ((a :: tail).intercalate pieces) =
      replacement.intercalate pieces := by
  induction pieces with
  | nil => rfl
  | cons piece pieces ih =>
    have hpiece := ha piece List.mem_cons_self
    cases pieces with
    | nil =>
      rw [List.intercalate_singleton, List.intercalate_singleton, replace_of_not_mem hpiece]
    | cons next pieces =>
      rw [List.intercalate_cons_cons, List.intercalate_cons_cons, List.append_assoc,
        replace_append_of_not_mem hpiece, replace_occurrence (List.cons_ne_nil a tail),
        ih fun p hp => ha p (List.mem_cons_of_mem _ hp), List.append_assoc]

end Lib.Replace
