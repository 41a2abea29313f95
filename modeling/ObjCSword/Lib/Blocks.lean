import Mathlib.Algebra.GroupWithZero.Nat
import Mathlib.Data.List.Basic
import Mathlib.Algebra.BigOperators.Group.List.Basic

/-!
# A sequence cut into blocks

A sequence of items is cut into consecutive blocks, given by their lengths, and an item is named by
its index in the whole sequence. `start` and `length` find the block of an item. All that is needed
of the cut is said by three facts: an item lies in its own block (`start_le`, `lt_start_add`), the
items of a block agree on it (`start_eq_of_mem`), and a later item's block does not begin before an
earlier one's (`start_mono`).
-/

namespace Lib.Blocks

/-- The index of the first item of the block that holds the item `i`. -/
def start : List Nat → Nat → Nat
  | [], _ => 0
  | len :: rest, i => if i < len then 0 else len + start rest (i - len)

/-- The length of the block that holds the item `i`. -/
def length : List Nat → Nat → Nat
  | [], _ => 0
  | len :: rest, i => if i < len then len else length rest (i - len)

theorem start_le (blocks : List Nat) (i : Nat) : start blocks i ≤ i := by
  induction blocks generalizing i with
  | nil => exact Nat.zero_le i
  | cons len rest ih =>
    rw [start]
    split
    · exact Nat.zero_le i
    · have := ih (i - len)
      omega

theorem lt_start_add {blocks : List Nat} {i : Nat} (h : i < blocks.sum) :
    i < start blocks i + length blocks i := by
  induction blocks generalizing i with
  | nil => exact absurd h (Nat.not_lt_zero i)
  | cons len rest ih =>
    rw [List.sum_cons] at h
    rw [start, length]
    by_cases hlt : i < len
    · rw [if_pos hlt, if_pos hlt]
      omega
    · rw [if_neg hlt, if_neg hlt]
      have := ih (i := i - len) (by omega)
      omega

/-- The items of one block agree on where it starts. -/
theorem start_eq_of_mem {blocks : List Nat} {i j : Nat} (hlow : start blocks i ≤ j)
    (hhigh : j < start blocks i + length blocks i) : start blocks j = start blocks i := by
  induction blocks generalizing i j with
  | nil => rfl
  | cons len rest ih =>
    rw [start, length] at hhigh
    rw [start] at hlow ⊢
    rw [start]
    by_cases hlt : i < len
    · rw [if_pos hlt, if_pos hlt] at hhigh
      rw [if_pos hlt, if_pos (by omega)]
    · rw [if_neg hlt, if_neg hlt] at hhigh
      rw [if_neg hlt] at hlow
      rw [if_neg hlt, if_neg (by omega)]
      rw [ih (i := i - len) (j := j - len) (by omega) (by omega)]

/-- A later item's block does not begin before an earlier one's. -/
theorem start_mono (blocks : List Nat) {i j : Nat} (h : i ≤ j) :
    start blocks i ≤ start blocks j := by
  induction blocks generalizing i j with
  | nil => exact Nat.le_refl _
  | cons len rest ih =>
    rw [start, start]
    by_cases hi : i < len
    · rw [if_pos hi]
      exact Nat.zero_le _
    · rw [if_neg hi, if_neg (by omega)]
      exact Nat.add_le_add_left (ih (by omega)) len

/-- Past its end, a block's items are over: what comes next starts there or later. -/
theorem end_le_start {blocks : List Nat} {i j : Nat} (h : start blocks i + length blocks i ≤ j)
    (hj : j < blocks.sum) : start blocks i + length blocks i ≤ start blocks j := by
  induction blocks generalizing i j with
  | nil => exact absurd hj (Nat.not_lt_zero j)
  | cons len rest ih =>
    rw [List.sum_cons] at hj
    rw [start, length] at h ⊢
    rw [start]
    by_cases hi : i < len
    · rw [if_pos hi, if_pos hi] at h ⊢
      rw [if_neg (by omega)]
      omega
    · rw [if_neg hi, if_neg hi] at h ⊢
      rw [if_neg (by omega)]
      have := ih (i := i - len) (j := j - len) (by omega) (by omega)
      omega

end Lib.Blocks
