import Mathlib.Data.List.Sort

/-!
# Sorting an array

`sortedArrayUsingSelector:` asks the elements to compare themselves with each other. Where they
compare by numbers that differ, the order they were in does not matter.
-/

namespace ObjCSword.NSArray

variable {α β : Type}

/-- `sortedArrayUsingSelector:`. -/
def sortedArrayUsing (compare : α → α → Ordering) (array : List α) : List α :=
  array.insertionSort fun a b => (compare a b).isLE

/-- Sorting neither adds nor loses an element. -/
theorem mem_sortedArrayUsing (compare : α → α → Ordering) {array : List α} {a : α} :
    a ∈ sortedArrayUsing compare array ↔ a ∈ array :=
  (List.perm_insertionSort (fun a b => (compare a b).isLE = true) array).mem_iff

/-- Whatever order it was in, an array is sorted into the one in which the numbers increase. -/
theorem sortedArrayUsing_eq [LinearOrder β] (number : α → β) {array sorted : List α}
    (hperm : array.Perm sorted) (hsorted : sorted.Pairwise fun a b => number a < number b) :
    sortedArrayUsing (fun a b => compare (number a) (number b)) array = sorted := by
  have hle : ∀ a b : α, (compare (number a) (number b)).isLE = true ↔ number a ≤ number b :=
    fun a b => by rw [← compare_le_iff_le, Ordering.isLE_iff_ne_gt]
  have htotal : Std.Total fun a b : α => (compare (number a) (number b)).isLE = true :=
    ⟨fun a b => by
      rw [hle, hle]
      exact le_total _ _⟩
  have htrans : IsTrans α fun a b => (compare (number a) (number b)).isLE = true :=
    ⟨fun a b c hab hbc => (hle a c).mpr (le_trans ((hle a b).mp hab) ((hle b c).mp hbc))⟩
  have hnodup : (sorted.map number).Nodup :=
    List.pairwise_map.mpr (hsorted.imp fun h => ne_of_lt h)
  have hperm' := (List.perm_insertionSort
    (fun a b => (compare (number a) (number b)).isLE = true) array).trans hperm
  refine hperm'.eq_of_pairwise (fun a b ha hb hab hba => ?_)
    (List.pairwise_insertionSort _ array) (hsorted.imp fun h => (hle _ _).mpr (le_of_lt h))
  -- elements of one number are one element
  exact List.inj_on_of_nodup_map hnodup (hperm'.mem_iff.mp ha) hb
    (le_antisymm ((hle a b).mp hab) ((hle b a).mp hba))

end ObjCSword.NSArray
