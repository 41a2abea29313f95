import ObjCSword.Laws.VerseEnumerators
import ObjCSword.SwordListKey

/-!
# Counting the verses of a list key

`numberOfVerses` steps its pointer where the enumerators step the list. So each turn of its loop
asks the next address for an error, and the wrapper is left pointing as many keys further as were
counted (`countVerses_sk`): it counts rightly, and keeps its key, for the list without verses only.
-/

namespace ObjCSword.SwordListKey

open Lib

variable {β : Type}

/-- Work on the key at the pointer. -/
theorem deref_of_key {self : SwordListKey} {lk : Cursor String}
    (h : self.memory[self.sk]? = some (some lk)) (work : Cursor String → β × Cursor String) :
    self.deref work =
      some ((work lk).1, { self with memory := self.memory.set self.sk (some (work lk).2) }) := by
  rw [deref, h]

/-- After work on the key, the key is there as the work left it. -/
theorem memory_set {self : SwordListKey} {lk : Cursor String}
    (h : self.memory[self.sk]? = some (some lk)) (lk' : Cursor String) :
    let self' : SwordListKey := { self with memory := self.memory.set self.sk (some lk') }
    self'.memory[self'.sk]? = some (some lk') := by
  obtain ⟨hlt, -⟩ := List.getElem?_eq_some_iff.mp h
  exact List.getElem?_set_self hlt

theorem deref_sk {self self' : SwordListKey} {work : Cursor String → β × Cursor String} {ret : β}
    (h : self.deref work = some (ret, self')) : self'.sk = self.sk := by
  unfold deref at h
  split at h
  · cases h
    rfl
  · cases h

/-- The loop moves the pointer by what it counts. -/
theorem countVerses_sk {fuel ret : Nat} {self : SwordListKey} {ret' : Nat} {self' : SwordListKey}
    (h : countVerses fuel ret self = some (ret', self')) : self'.sk + ret = self.sk + ret' := by
  induction fuel generalizing ret self with
  | zero => cases h
  | succ fuel ih =>
    rw [countVerses] at h
    obtain ⟨⟨error, next⟩, hnext, h⟩ := Option.bind_eq_some_iff.mp h
    have hsk := deref_sk hnext
    cases error with
    | true =>
      cases h
      rw [hsk]
    | false =>
      have hrest := ih h
      dsimp only at hrest
      omega

/-- **The count is right, with the key kept and no other touched, exactly where the list has no
verse.** -/
theorem numberOfVerses_iff {self : SwordListKey} {lk : Cursor String}
    (h : self.memory[self.sk]? = some (some lk)) :
    (∃ ret self', numberOfVerses self = some (ret, self') ∧ ret = lk.elems.length ∧
        ret = (VerseEnumerator.allObjects (VerseEnumerator.initWithListKey lk)).1.length ∧
        self'.sk = self.sk ∧ ∀ a ≠ self.sk, self'.memory[a]? = self.memory[a]?) ↔
      lk.elems = [] := by
  have hstart : numberOfVerses self =
      countVerses (self.memory.length + 1) 0
        { self with memory := self.memory.set self.sk (some lk.top) } := by
    rw [numberOfVerses, deref_of_key h, Option.bind_some]
    dsimp only
    rw [List.length_set]
  have htop : (self.memory.set self.sk (some lk.top))[self.sk]? = some (some lk.top) :=
    memory_set h lk.top
  constructor
  · rintro ⟨ret, self', hcount, hret, -, hsk, -⟩
    rw [hstart] at hcount
    have hmoved := countVerses_sk hcount
    dsimp only at hmoved
    exact List.length_eq_zero_iff.mp (by omega)
  · intro hempty
    have herror : lk.top.popError.1 = true := by
      rw [Cursor.popError, Cursor.top, hempty]
      rfl
    rw [hstart, countVerses, deref_of_key htop, Option.bind_some]
    dsimp only
    rw [if_pos herror, VerseEnumerator.allObjects_eq, VerseEnumerator.initWithListKey]
    refine ⟨0, _, rfl, ?_, ?_, rfl, fun a ha => ?_⟩
    · rw [hempty]
      rfl
    · rw [show lk.top.elems = lk.elems from rfl, hempty]
      rfl
    · dsimp only
      rw [List.getElem?_set_ne (Ne.symm ha), List.getElem?_set_ne (Ne.symm ha)]

/-- A list key alone in its memory. -/
def alone (verses : List String) : SwordListKey := ⟨[some (.ofList verses)], 0⟩

theorem alone_key (verses : List String) :
    (alone verses).memory[(alone verses).sk]? = some (some (.ofList verses)) := rfl

theorem numberOfVerses_iff_alone :
    ∃ ret self', numberOfVerses (alone []) = some (ret, self') ∧ ret = 0 ∧
      ret = (VerseEnumerator.allObjects (VerseEnumerator.initWithListKey (.ofList []))).1.length ∧
      self'.sk = 0 ∧ ∀ a ≠ 0, self'.memory[a]? = (alone []).memory[a]? :=
  (numberOfVerses_iff (alone_key [])).mpr rfl

/-- With a verse in the list, the loop goes on to what lies behind the key. -/
theorem numberOfVerses_behind_key :
    numberOfVerses (alone ["Genesis 1:1"]) = none ∧
      numberOfVerses ⟨[some (.ofList ["Genesis 1:1"]), some ⟨[], 0, true⟩], 0⟩ =
        some (1, ⟨[some ⟨["Genesis 1:1"], 0, false⟩, some ⟨[], 0, false⟩], 1⟩) := by
  decide

end ObjCSword.SwordListKey
