import Mathlib.Data.List.Basic

/-!
# Walking a list with a cursor

An engine object that is walked through is a list, a position in it and an error flag: `top` goes to
the first element, `increment` to the next, and either raises the error where there is no element to
go to. Reading the error takes it away. The loop every client writes over such an object,

    for (c = TOP; !c.popError(); c++) body

is `forEach`. It carries fuel, and `forEach_top` says what that fuel is worth: with any fuel above
the number of elements the loop is the left fold of its body over the list, so it ends, it visits
every element once and in order, and more fuel changes nothing.
-/

namespace Lib

/-- A list, a position in it, and a pending error. -/
structure Cursor (α : Type) where
  elems : List α
  pos : Nat
  error : Bool
deriving DecidableEq, Repr

namespace Cursor

variable {α σ : Type}

def ofList (elems : List α) : Cursor α := ⟨elems, 0, false⟩

/-- Go to the first element. -/
def top (c : Cursor α) : Cursor α := { c with pos := 0, error := c.elems.isEmpty }

/-- Go to the next element, or stay on the last one with an error. -/
def increment (c : Cursor α) : Cursor α :=
  if c.pos + 1 < c.elems.length then { c with pos := c.pos + 1 } else { c with error := true }

/-- Read the error and take it away. -/
def popError (c : Cursor α) : Bool × Cursor α := (c.error, { c with error := false })

/-- The element the cursor stands on; there is none in an empty list. -/
def current (c : Cursor α) : Option α := c.elems[c.pos]?

/-- The loop: as long as there is no error, run the body on the current element and go on. -/
def forEach (body : σ → Option α → σ) : Nat → Cursor α → σ → σ
  | 0, _, s => s
  | fuel + 1, c, s =>
    if c.popError.1 then s else forEach body fuel c.popError.2.increment (body s c.current)

theorem forEach_no_error (body : σ → Option α → σ) (elems : List α) (pos fuel : Nat) (s : σ) :
    forEach body (fuel + 1) ⟨elems, pos, false⟩ s =
      forEach body fuel (increment ⟨elems, pos, false⟩) (body s elems[pos]?) := rfl

theorem forEach_error (body : σ → Option α → σ) (elems : List α) (pos fuel : Nat) (s : σ) :
    forEach body fuel ⟨elems, pos, true⟩ s = s := by
  cases fuel with
  | zero => rfl
  | succ fuel => rfl

theorem increment_of_lt {elems : List α} {pos : Nat} (h : pos + 1 < elems.length) :
    increment ⟨elems, pos, false⟩ = ⟨elems, pos + 1, false⟩ := if_pos h

theorem increment_of_not_lt {elems : List α} {pos : Nat} (h : ¬ pos + 1 < elems.length) :
    increment ⟨elems, pos, false⟩ = ⟨elems, pos, true⟩ := if_neg h

/-- The loop from a position inside the list folds the body over what is left. -/
theorem forEach_drop (body : σ → Option α → σ) (elems : List α) (fuel pos : Nat) (s : σ)
    (hpos : pos < elems.length) (hfuel : elems.length - pos < fuel) :
    forEach body fuel ⟨elems, pos, false⟩ s =
      (elems.drop pos).foldl (fun s a => body s (some a)) s := by
  induction fuel generalizing pos s with
  | zero => exact absurd hfuel (Nat.not_lt_zero _)
  | succ fuel ih =>
    rw [forEach_no_error, List.getElem?_eq_getElem hpos, List.drop_eq_getElem_cons hpos,
      List.foldl_cons]
    by_cases hnext : pos + 1 < elems.length
    · rw [increment_of_lt hnext]
      exact ih (pos + 1) _ hnext (by omega)
    · rw [increment_of_not_lt hnext, forEach_error, List.drop_eq_nil_of_le (by omega),
        List.foldl_nil]

/-- **The loop from the top is a fold over the whole list**, whatever fuel it has above the number
of elements. -/
theorem forEach_top (body : σ → Option α → σ) (c : Cursor α) (fuel : Nat) (s : σ)
    (hfuel : c.elems.length < fuel) :
    forEach body fuel c.top s = c.elems.foldl (fun s a => body s (some a)) s := by
  obtain ⟨elems, pos, error⟩ := c
  cases elems with
  | nil => exact forEach_error body [] 0 fuel s
  | cons a elems => exact forEach_drop body (a :: elems) fuel 0 s (Nat.zero_lt_succ _) hfuel

end Cursor

end Lib
