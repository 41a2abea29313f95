import ObjCSword.VerseEnumerator

/-!
# What an enumerator returns

The end of the list is a flag that reading takes away, while the cursor stays on the last verse. So
an enumerator returns the verses of its list and one `nil`, and starts over with the last verse: its
answers are right for one call more than there are verses (`enumerator_iff`).
-/

namespace ObjCSword.VerseEnumerator

open Lib

/-- The answers of a number of calls of `nextObject`, and where the list is left. -/
def nextObjects : Nat → Cursor String → List (Option String) × Cursor String
  | 0, lk => ([], lk)
  | calls + 1, lk =>
    let (ret, lk) := nextObject lk
    let (rets, lk) := nextObjects calls lk
    (ret :: rets, lk)

/-- The answers there should be: the verses in order, then nothing. -/
def inOrder (verses : List String) (calls : Nat) : List (Option String) :=
  (List.range calls).map (verses[·]?)

/-! ## Fewer calls, more calls -/

theorem nextObjects_take {fewer calls : Nat} (h : fewer ≤ calls) (lk : Cursor String) :
    (nextObjects calls lk).1.take fewer = (nextObjects fewer lk).1 := by
  induction fewer generalizing calls lk with
  | zero => rfl
  | succ fewer ih =>
    obtain ⟨calls, rfl⟩ := Nat.exists_eq_succ_of_ne_zero (Nat.ne_of_gt (Nat.zero_lt_of_lt h))
    exact congrArg ((nextObject lk).1 :: ·) (ih (Nat.le_of_succ_le_succ h) (nextObject lk).2)

theorem inOrder_take {fewer calls : Nat} (h : fewer ≤ calls) (verses : List String) :
    (inOrder verses calls).take fewer = inOrder verses fewer := by
  rw [inOrder, ← List.map_take, List.take_range, Nat.min_eq_left h, inOrder]

theorem inOrder_length (verses : List String) :
    inOrder verses verses.length = verses.map some := by
  apply List.ext_getElem?
  intro i
  rw [inOrder, List.getElem?_map, List.getElem?_map]
  by_cases h : i < verses.length
  · rw [List.getElem?_range h, Option.map_some, List.getElem?_eq_getElem h, Option.map_some]
  · rw [List.getElem?_eq_none (by rw [List.length_range]; omega), List.getElem?_eq_none (by omega)]
    rfl

theorem inOrder_succ (verses : List String) (calls : Nat) :
    inOrder verses (calls + 1) = inOrder verses calls ++ [verses[calls]?] := by
  rw [inOrder, List.range_succ, List.map_append, inOrder]
  rfl

/-! ## The calls -/

/-- On a verse, a call returns it and goes on. -/
theorem nextObject_of_lt {verses : List String} {pos : Nat} (h : pos < verses.length) :
    nextObject ⟨verses, pos, false⟩ =
      (some verses[pos], Cursor.increment ⟨verses, pos, false⟩) := by
  rw [nextObject, Cursor.popError]
  dsimp only
  rw [if_neg Bool.false_ne_true, Cursor.current, List.getElem?_eq_getElem h]
  rfl

/-- At the end, a call returns nothing and takes the flag away. -/
theorem nextObject_error (verses : List String) (pos : Nat) :
    nextObject ⟨verses, pos, true⟩ = (none, ⟨verses, pos, false⟩) := rfl

/-- From a verse of the list, the verses that are left are returned, then nothing, and then the last
verse once more. -/
theorem nextObjects_drop {verses : List String} {pos : Nat} (hpos : pos < verses.length) :
    (nextObjects (verses.length - pos + 2) ⟨verses, pos, false⟩).1 =
      (verses.drop pos).map some ++ [none, verses.getLast?] := by
  induction hleft : verses.length - pos generalizing pos with
  | zero => omega
  | succ left ih =>
    have hcall : (nextObjects (left + 1 + 2) ⟨verses, pos, false⟩).1 =
        some verses[pos] ::
          (nextObjects (left + 2) (Cursor.increment ⟨verses, pos, false⟩)).1 := by
      rw [show left + 1 + 2 = (left + 2) + 1 from rfl, nextObjects, nextObject_of_lt hpos]
    rw [hcall, List.drop_eq_getElem_cons hpos, List.map_cons, List.cons_append]
    by_cases hnext : pos + 1 < verses.length
    · rw [Cursor.increment_of_lt hnext, ih hnext (by omega)]
    · have hzero : left = 0 := by omega
      have hlast : verses.getLast? = some verses[pos] := by
        rw [List.getLast?_eq_getElem?, ← List.getElem?_eq_getElem hpos]
        congr 1
        omega
      rw [Cursor.increment_of_not_lt hnext, List.drop_eq_nil_of_le (by omega), hzero, hlast]
      simp only [nextObjects, nextObject_error, nextObject_of_lt hpos, List.map_nil,
        List.nil_append]

/-- **The answers of an enumerator**: its verses, nothing, and then something again. -/
theorem nextObjects_init (lk : Cursor String) :
    (nextObjects (lk.elems.length + 2) (initWithListKey lk)).1 =
      lk.elems.map some ++ [none, some (lk.elems.getLast?.getD "")] := by
  obtain ⟨verses, pos, error⟩ := lk
  cases verses with
  | nil => rfl
  | cons verse verses =>
    have h := @nextObjects_drop (verse :: verses) 0 (Nat.zero_lt_succ _)
    rw [List.drop_zero, Nat.sub_zero] at h
    rw [List.getLast?_cons, Option.getD_some, ← List.getLast?_cons]
    exact h

theorem nextObjects_verses (lk : Cursor String) :
    (nextObjects lk.elems.length (initWithListKey lk)).1 = lk.elems.map some := by
  rw [← nextObjects_take (Nat.le_add_right _ 2), nextObjects_init,
    List.take_left' (List.length_map _)]

/-- `allObjects` is the list, and it leaves the list as a new enumerator does. -/
theorem allObjects_eq (lk : Cursor String) : allObjects lk = (lk.elems, initWithListKey lk) := by
  have happend : ∀ verses t : List String,
      verses.foldl (fun t verse => t ++ [SwordListKey.keyText (some verse)]) t = t ++ verses := by
    intro verses
    induction verses with
    | nil => exact fun t => (List.append_nil t).symm
    | cons verse verses ih =>
      intro t
      rw [List.foldl_cons, ih, List.append_assoc]
      rfl
  rw [allObjects, Cursor.forEach_top _ lk _ _ (Nat.lt_succ_self _), happend, List.nil_append]
  rfl

/-- **An enumerator answers a number of calls with its verses in order and nothing after them**, and
a number of verses again after `allObjects`, exactly where the calls are at most one more than the
verses. -/
theorem enumerator_iff (lk : Cursor String) (calls : Nat) :
    ((nextObjects calls (initWithListKey lk)).1 = inOrder lk.elems calls ∧
        ∀ moved : Cursor String, moved.elems = lk.elems →
          (allObjects moved).1 = lk.elems ∧
            (nextObjects lk.elems.length (allObjects moved).2).1 = lk.elems.map some) ↔
      calls ≤ lk.elems.length + 1 := by
  have hall : ∀ moved : Cursor String, moved.elems = lk.elems →
      (allObjects moved).1 = lk.elems ∧
        (nextObjects lk.elems.length (allObjects moved).2).1 = lk.elems.map some := by
    intro moved hmoved
    have hverses := nextObjects_verses moved
    rw [hmoved] at hverses
    rw [allObjects_eq]
    exact ⟨hmoved, hverses⟩
  have hnone : inOrder lk.elems (lk.elems.length + 1) = lk.elems.map some ++ [none] := by
    rw [inOrder_succ, inOrder_length, List.getElem?_eq_none (Nat.le_refl _)]
  have hinit := nextObjects_init lk
  rw [and_iff_left hall]
  constructor
  · intro hcalls
    by_contra hmore
    -- the answer after the first `nil` is the last verse, or an empty text
    have htaken := congrArg (List.take (lk.elems.length + 2)) hcalls
    rw [nextObjects_take (by omega), inOrder_take (by omega), hinit, inOrder_succ, hnone,
      List.getElem?_eq_none (Nat.le_succ _), List.append_assoc] at htaken
    have hlast := List.append_cancel_left htaken
    cases hlast
  · intro hfew
    have hfirst : (nextObjects (lk.elems.length + 1) (initWithListKey lk)).1 =
        lk.elems.map some ++ [none] := by
      have hsplit : lk.elems.map some ++ [none, some (lk.elems.getLast?.getD "")] =
          lk.elems.map some ++ [none] ++ [some (lk.elems.getLast?.getD "")] :=
        (List.append_assoc _ [none] _).symm
      rw [← nextObjects_take (Nat.le_succ _), hinit, hsplit,
        List.take_left' (by rw [List.length_append, List.length_map, List.length_singleton])]
    rw [← nextObjects_take hfew, ← inOrder_take hfew, hnone, hfirst]

/-- With one verse, the third call returns it again. -/
theorem nextObject_starts_over :
    (nextObjects 3 (initWithListKey (.ofList ["Genesis 1:1"]))).1 =
        [some "Genesis 1:1", none, some "Genesis 1:1"] ∧
      inOrder ["Genesis 1:1"] 3 = [some "Genesis 1:1", none, none] := by
  decide

end ObjCSword.VerseEnumerator
