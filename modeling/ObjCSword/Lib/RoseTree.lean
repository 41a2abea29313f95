import Mathlib.Data.List.Basic

/-!
# Rose trees and their addresses

A finite tree whose nodes carry a label and a list of children. A node is named by its **address**,
the list of the child indices on the way down to it: the root is `[]`, and the children of `a` are
`a ++ [0]`, `a ++ [1]` and so on up to the number of its children.
-/

namespace Lib

/-- A node with its children. -/
inductive RoseTree (α : Type) where
  | node (label : α) (children : List (RoseTree α))

namespace RoseTree

variable {α : Type}

def label : RoseTree α → α
  | node label _ => label

def children : RoseTree α → List (RoseTree α)
  | node _ children => children

/-- The node at an address. -/
def subtree : RoseTree α → List Nat → Option (RoseTree α)
  | t, [] => some t
  | t, i :: a => t.children[i]?.bind fun child => child.subtree a

/-- There is a node at the address. -/
def Valid (t : RoseTree α) (a : List Nat) : Prop := (t.subtree a).isSome = true

instance (t : RoseTree α) (a : List Nat) : Decidable (t.Valid a) :=
  inferInstanceAs (Decidable (_ = true))

/-- How many children the node at an address has. -/
def childCount (t : RoseTree α) (a : List Nat) : Nat :=
  ((t.subtree a).map fun node => node.children.length).getD 0

theorem subtree_append (t : RoseTree α) (a b : List Nat) :
    t.subtree (a ++ b) = (t.subtree a).bind fun node => node.subtree b := by
  induction a generalizing t with
  | nil => rfl
  | cons i a ih =>
    show (t.children[i]?.bind fun child => child.subtree (a ++ b)) =
      (t.children[i]?.bind fun child => child.subtree a).bind fun node => node.subtree b
    cases t.children[i]? with
    | none => rfl
    | some child => exact ih child

/-- The first index of an address picks a child, and the rest is an address in it. -/
theorem valid_cons (t : RoseTree α) {i : Nat} {a : List Nat} :
    t.Valid (i :: a) ↔ ∃ child, t.children[i]? = some child ∧ child.Valid a := by
  rw [Valid, subtree, Option.isSome_bind]
  cases t.children[i]? with
  | none => simp
  | some child => simp [Valid]

/-- The child of the root above a node. -/
theorem valid_head {t : RoseTree α} {i : Nat} {a : List Nat} (h : t.Valid (i :: a)) :
    t.Valid [i] := by
  obtain ⟨child, hchild, -⟩ := t.valid_cons.mp h
  exact t.valid_cons.mpr ⟨child, hchild, rfl⟩

/-- The children of a node are numbered below its number of children. -/
theorem valid_snoc (t : RoseTree α) (a : List Nat) (i : Nat) :
    t.Valid (a ++ [i]) ↔ i < t.childCount a := by
  rw [Valid, subtree_append, childCount]
  cases t.subtree a with
  | none => simp
  | some node =>
    show ((node.children[i]?.bind fun child => some child)).isSome = true ↔ i < node.children.length
    simp

/-- A tree that has a node below its root has a child of the root. -/
theorem childCount_root_pos {t : RoseTree α} {a : List Nat} (h : t.Valid a) (hne : a ≠ []) :
    0 < t.childCount [] := by
  cases a with
  | nil => exact absurd rfl hne
  | cons i a =>
    cases hchild : t.children[i]? with
    | none =>
      have hnone : t.subtree (i :: a) = none := by rw [subtree, hchild, Option.bind_none]
      rw [Valid, hnone] at h
      cases h
    | some child =>
      have hlt : i < t.children.length := (List.getElem?_eq_some_iff.mp hchild).1
      exact Nat.lt_of_le_of_lt (Nat.zero_le i) hlt

end RoseTree

end Lib
