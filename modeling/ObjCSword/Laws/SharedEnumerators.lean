import ObjCSword.Laws.ListKeys

/-!
# Enumerators of one list key

An enumerator has no position of its own. All enumerators of a list key, `allObjects` and
`containsKey:` move the one position of the key: in the abstract a counter that every `nextObject`
adds one to, whichever enumerator it is sent to (`expected`). The code refines this as long as no
`nextObject` follows the one that returned `nil` (`shared_position`). So the answers of one
enumerator are the verses in order where the calls of the others leave the counter as it is.
-/

namespace ObjCSword.SwordListKey

open Lib

variable {ι : Type} (locate : List String → String → Nat × Bool) (verses : List String)

/-! ## One counter -/

/-- Where a call leaves the counter. -/
def counted : KeyCall ι → Nat → Nat
  | .nextObject _, next => next + 1
  | .allObjects _, _ => 0
  | .containsKey osisRef, _ => (locate verses osisRef).1

/-- What a call answers. -/
def answer : KeyCall ι → Nat → ListKeyAnswer
  | .nextObject _, next => .verse verses[next]?
  | .allObjects _, _ => .verses verses
  | .containsKey osisRef, _ => .contains (!(locate verses osisRef).2)

/-- The answers of some calls, from a value of the counter. -/
def expected : Nat → List (KeyCall ι) → List ListKeyAnswer
  | _, [] => []
  | next, call :: calls =>
    answer locate verses call next :: expected (counted locate verses call next) calls

/-- No verse is asked for behind the end of the list, and what is looked for is found at some
verse. -/
def InRange : Nat → List (KeyCall ι) → Prop
  | _, [] => True
  | next, .nextObject _ :: calls => next ≤ verses.length ∧ InRange (next + 1) calls
  | _, .allObjects _ :: calls => InRange 0 calls
  | _, .containsKey osisRef :: calls =>
    (locate verses osisRef).1 < verses.length ∧ InRange (locate verses osisRef).1 calls

/-- Every call but those of one enumerator leaves the counter as it is. -/
def Undisturbed (enumerator : ι) : Nat → List (KeyCall ι) → Prop
  | _, [] => True
  | next, call :: calls =>
    (call = .nextObject enumerator ∨ counted locate verses call next = next) ∧
      Undisturbed enumerator (counted locate verses call next) calls

/-- What an enumerator answered, of the answers to some calls. -/
def answersOf [DecidableEq ι] (enumerator : ι) :
    List (KeyCall ι) → List ListKeyAnswer → List (Option String)
  | .nextObject e :: calls, .verse ret :: rets =>
    if e = enumerator then ret :: answersOf enumerator calls rets
    else answersOf enumerator calls rets
  | _ :: calls, _ :: rets => answersOf enumerator calls rets
  | _, _ => []

variable {locate verses}

/-- Where nothing else moves the counter, an enumerator is answered the verses from there on. -/
theorem answersOf_expected [DecidableEq ι] {enumerator : ι} {calls : List (KeyCall ι)} {next : Nat}
    (h : Undisturbed locate verses enumerator next calls) :
    answersOf enumerator calls (expected locate verses next calls) =
      (List.range (calls.count (.nextObject enumerator))).map fun i => verses[next + i]? := by
  induction calls generalizing next with
  | nil => rfl
  | cons call calls ih =>
    obtain ⟨hcall, hrest⟩ := h
    have ih := ih hrest
    cases call with
    | nextObject e =>
      by_cases he : e = enumerator
      · subst he
        rw [List.count_cons_self, List.range_succ_eq_map, List.map_cons, List.map_map]
        rw [expected, answer, answersOf, if_pos rfl, ih]
        refine congrArg₂ _ rfl (List.map_congr_left fun i _ => ?_)
        show verses[next + 1 + i]? = verses[next + (i + 1)]?
        congr 1
        omega
      · have hmoved : next + 1 = next :=
          hcall.resolve_left fun heq => he (KeyCall.nextObject.inj heq)
        omega
    | allObjects e =>
      have hne : KeyCall.allObjects e ≠ .nextObject enumerator := nofun
      have hkept : counted locate verses (KeyCall.allObjects e) next = next :=
        hcall.resolve_left hne
      rw [hkept] at ih
      rw [List.count_cons_of_ne hne, expected, hkept]
      exact ih
    | containsKey osisRef =>
      have hne : KeyCall.containsKey osisRef ≠ .nextObject enumerator := nofun
      have hkept : counted locate verses (KeyCall.containsKey osisRef : KeyCall ι) next = next :=
        hcall.resolve_left hne
      rw [hkept] at ih
      rw [List.count_cons_of_ne hne, expected, hkept]
      exact ih

/-! ## The cursor and the counter -/

/-- The cursor is before the verse of the counter, or at the end with the error that says so. Beyond
that it may be anywhere. -/
structure At (verses : List String) (next : Nat) (lk : Cursor String) : Prop where
  elems : lk.elems = verses
  verse : next < verses.length → lk.pos = next ∧ lk.error = false
  done : next = verses.length → lk.error = true

theorem at_top {lk : Cursor String} (h : lk.elems = verses) : At verses 0 lk.top := by
  refine ⟨h, fun hlt => ⟨rfl, ?_⟩, fun hzero => ?_⟩
  · rw [Cursor.top, h]
    exact List.isEmpty_eq_false_iff.mpr (List.ne_nil_of_length_pos hlt)
  · rw [Cursor.top, h]
    exact List.isEmpty_iff.mpr (List.length_eq_zero_iff.mp hzero.symm)

/-- `nextObject` answers with the verse of the counter, whoever is asked. -/
theorem nextObject_at {next : Nat} {lk : Cursor String} (h : At verses next lk)
    (hnext : next ≤ verses.length) :
    (VerseEnumerator.nextObject lk).1 = verses[next]? ∧
      At verses (next + 1) (VerseEnumerator.nextObject lk).2 := by
  obtain ⟨helems, hverse, hdone⟩ := h
  obtain ⟨elems, pos, error⟩ := lk
  dsimp only at helems hverse hdone
  subst helems
  by_cases hlt : next < elems.length
  · obtain ⟨rfl, rfl⟩ := hverse hlt
    rw [VerseEnumerator.nextObject_of_lt hlt, List.getElem?_eq_getElem hlt]
    refine ⟨rfl, ?_⟩
    by_cases hmore : pos + 1 < elems.length
    · rw [Cursor.increment_of_lt hmore]
      exact ⟨rfl, fun _ => ⟨rfl, rfl⟩, fun hend => by omega⟩
    · rw [Cursor.increment_of_not_lt hmore]
      exact ⟨rfl, fun hlt' => absurd hlt' hmore, fun _ => rfl⟩
  · have hend : next = elems.length := by omega
    obtain rfl := hdone hend
    rw [VerseEnumerator.nextObject_error, List.getElem?_eq_none (by omega)]
    exact ⟨rfl, rfl, fun hlt' => by omega, fun hend' => by omega⟩

/-- **One call** is answered by the counter, and moves the cursor with it. -/
theorem work_at {next : Nat} {lk : Cursor String} (h : At verses next lk) {call : KeyCall ι}
    {calls : List (KeyCall ι)} (hrange : InRange locate verses next (call :: calls)) :
    (call.work locate lk).1 = answer locate verses call next ∧
      At verses (counted locate verses call next) (call.work locate lk).2 ∧
      InRange locate verses (counted locate verses call next) calls := by
  cases call with
  | nextObject e =>
    obtain ⟨hret, hat⟩ := nextObject_at h hrange.1
    exact ⟨congrArg ListKeyAnswer.verse hret, hat, hrange.2⟩
  | allObjects e =>
    have hall : KeyCall.work locate (.allObjects e) lk = (.verses lk.elems, lk.top) := by
      rw [KeyCall.work, VerseEnumerator.allObjects_eq]
      rfl
    rw [hall]
    exact ⟨congrArg ListKeyAnswer.verses h.elems, at_top h.elems, hrange⟩
  | containsKey osisRef =>
    obtain ⟨elems, pos, error⟩ := lk
    obtain rfl : elems = verses := h.elems
    obtain ⟨hfound, hrest⟩ := hrange
    exact ⟨rfl, ⟨rfl, fun _ => ⟨rfl, rfl⟩, fun hend => absurd hend (Nat.ne_of_lt hfound)⟩, hrest⟩

/-- A run of such calls. -/
theorem run_at {self : SwordListKey} {next : Nat} {lk : Cursor String}
    (hkey : self.memory[self.sk]? = some (some lk)) (h : At verses next lk)
    {calls : List (KeyCall ι)} (hrange : InRange locate verses next calls) :
    ∃ self', self.run locate (calls.map .key) = some (expected locate verses next calls, self') := by
  induction calls generalizing self next lk with
  | nil => exact ⟨self, rfl⟩
  | cons call calls ih =>
    obtain ⟨hanswer, hat, hrest⟩ := work_at h hrange
    obtain ⟨self', hrun⟩ := ih (memory_set hkey _) hat hrest
    refine ⟨self', ?_⟩
    rw [List.map_cons, run, SwordListKey.call, deref_of_key hkey, Option.bind_some]
    dsimp only
    rw [hrun, hanswer]
    rfl

/-- **All enumerators of a list key go on from where any of them stopped.** The calls from the
moment one is made are answered by one counter; and where the calls of the others leave it as it is,
the enumerator returns the verses in order, then nothing. -/
theorem shared_position [DecidableEq ι] (locate : List String → String → Nat × Bool)
    {self : SwordListKey} {lk : Cursor String} (hkey : self.memory[self.sk]? = some (some lk))
    {calls : List (KeyCall ι)} (hrange : InRange locate lk.elems 0 calls) :
    ∃ made rets self', self.deref (fun lk => ((), VerseEnumerator.initWithListKey lk)) =
        some ((), made) ∧
      made.run locate (calls.map .key) = some (rets, self') ∧
      rets = expected locate lk.elems 0 calls ∧
      ∀ enumerator, Undisturbed locate lk.elems enumerator 0 calls →
        answersOf enumerator calls rets =
          VerseEnumerator.inOrder lk.elems (calls.count (.nextObject enumerator)) := by
  obtain ⟨self', hrun⟩ := run_at (memory_set hkey lk.top) (at_top rfl) hrange
  refine ⟨_, _, self', deref_of_key hkey _, hrun, rfl, fun enumerator hundisturbed => ?_⟩
  rw [answersOf_expected hundisturbed, VerseEnumerator.inOrder]
  simp only [Nat.zero_add]

/-- The engine's search for a text, as it is for a list of verses. -/
def firstOf (verses : List String) (text : String) : Nat × Bool :=
  (verses.findIdx (· == text), !verses.contains text)

def twoVerses : List String := ["Genesis 1:1", "Genesis 1:2"]

/-- Two enumerators and a key that is looked up, in turn. -/
def twoEnumerators : List (KeyCall Bool) :=
  [.nextObject false, .containsKey "Genesis 1:2", .nextObject true, .nextObject false]

/-- The second enumerator goes on from where the first one and the search have stopped. -/
theorem shared_position_two_verses :
    ∃ made rets self', (alone twoVerses).deref
          (fun lk => ((), VerseEnumerator.initWithListKey lk)) = some ((), made) ∧
      made.run firstOf (twoEnumerators.map .key) = some (rets, self') ∧
      rets = [.verse (some "Genesis 1:1"), .contains true, .verse (some "Genesis 1:2"),
        .verse none] ∧
      ∀ enumerator, Undisturbed firstOf twoVerses enumerator 0 twoEnumerators →
        answersOf enumerator twoEnumerators rets =
          VerseEnumerator.inOrder twoVerses (twoEnumerators.count (.nextObject enumerator)) :=
  shared_position firstOf (alone_key twoVerses)
    ⟨by decide, by decide, by decide, by decide, trivial⟩

/-- What an enumerator is answered in a run. -/
def answersIn [DecidableEq ι] (locate : List String → String → Nat × Bool) (self : SwordListKey)
    (enumerator : ι) (calls : List (KeyCall ι)) : Option (List (Option String)) :=
  (self.run locate (calls.map .key)).map fun out => answersOf enumerator calls out.1

/-- Another enumerator takes a verse away, `allObjects` starts the verses again, and `containsKey:`
repeats one. -/
theorem position_moved :
    VerseEnumerator.inOrder twoVerses 2 = [some "Genesis 1:1", some "Genesis 1:2"] ∧
      answersIn firstOf (alone twoVerses) false
          [.nextObject false, .nextObject true, .nextObject false] =
        some [some "Genesis 1:1", none] ∧
      answersIn firstOf (alone twoVerses) false
          [.nextObject false, .allObjects true, .nextObject false] =
        some [some "Genesis 1:1", some "Genesis 1:1"] ∧
      answersIn firstOf (alone twoVerses) false
          [.nextObject false, .containsKey "Genesis 1:1", .nextObject false] =
        some [some "Genesis 1:1", some "Genesis 1:1"] := by
  decide

end ObjCSword.SwordListKey
