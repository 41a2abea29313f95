import ObjCSword.FilterProviderFactory

/-!
# Whether the filter provider is found

`factory` makes its object without a lock, so a caller may look before there is one and replace it
later, and with it the provider that was set meanwhile. Whoever calls and however the turns fall, a
`get` that begins after an `initWith:` has returned finds a provider exactly if the factory was made
before the callers started, or if no third caller is there to replace it (`provider_found_iff`).
-/

namespace ObjCSword.FilterProviderFactory

open Lib.Interleaving Lib.LazyObject

variable {ι : Type} {calls : ι → FactoryCall}

/-- A caller that will talk to this factory object, or has. -/
def Sees (object : Nat) : FactoryPhase → Prop
  | .factory phase => Lib.LazyObject.Sees object phase
  | .returned _ => True

theorem turn_called (i : ι) (s : FactoryState) :
    turn calls i s (.factory .called) =
      (s, .factory (if s.singleton.object = none then .making else .made)) := rfl

theorem turn_made (i : ι) (s : FactoryState) :
    turn calls i s (.factory .made) = (s, .factory (.got s.singleton.object)) := rfl

theorem initWith_ne_none (object : Nat) (aFilterProvider : FilterProvider) (s : FactoryState) :
    (initWith object aFilterProvider s).filterProvider object ≠ none := by
  have hset : (initWith object aFilterProvider s).filterProvider object = some aFilterProvider :=
    Function.update_self _ _ _
  rw [hset]
  exact Option.some_ne_none _

/-- **One turn where there is a factory**: it stays, a provider that it has is replaced by another
at most, and a caller that returns has talked to it. -/
theorem turn_of_factory {object : Nat} {s : FactoryState}
    (hobject : s.singleton.object = some object) (i : ι) {phase : FactoryPhase}
    (h : Sees object phase) :
    (turn calls i s phase).1.singleton = s.singleton ∧ Sees object (turn calls i s phase).2 ∧
      (s.filterProvider object ≠ none →
        (turn calls i s phase).1.filterProvider object ≠ none) ∧
      ∀ answer, (turn calls i s phase).2 = .returned answer → phase = .returned answer ∨
        match calls i with
        | .initWith _ => (turn calls i s phase).1.filterProvider object ≠ none
        | .get => answer = s.filterProvider object := by
  cases phase with
  | returned answer => exact ⟨rfl, trivial, id, fun _ => Or.inl⟩
  | factory phase =>
    cases phase with
    | got got =>
      have hgot : got = some object := h
      subst hgot
      rw [turn]
      cases calls i with
      | initWith aFilterProvider =>
        have hset := initWith_ne_none object aFilterProvider s
        exact ⟨rfl, trivial, fun _ => hset, fun _ _ => Or.inr hset⟩
      | get =>
        exact ⟨rfl, trivial, id, fun answer hanswer => Or.inr
          (FactoryPhase.returned.inj hanswer).symm⟩
    | called =>
      have hsome : s.singleton.object ≠ none := by
        rw [hobject]
        exact Option.some_ne_none _
      rw [turn_called, if_neg hsome]
      refine ⟨rfl, trivial, id, fun answer hanswer => ?_⟩
      cases hanswer
    | making => exact h.elim
    | made =>
      rw [turn_made]
      refine ⟨rfl, hobject, id, fun answer hanswer => ?_⟩
      cases hanswer

variable [DecidableEq ι]

/-- Where the callers are after some turns. -/
def callersAfter (calls : ι → FactoryCall) (singleton : Variable) (schedule : List ι) :
    State ι FactoryState FactoryPhase := run (turn calls) (start singleton) schedule

/-- There is one factory for all callers, and it has a provider. -/
structure Settled (object : Nat) (t : State ι FactoryState FactoryPhase) : Prop where
  object_eq : t.shared.singleton.object = some object
  sees : ∀ i, Sees object (t.callers i)
  found : t.shared.filterProvider object ≠ none

omit [DecidableEq ι] in
theorem Settled.turn {object : Nat} {t : State ι FactoryState FactoryPhase} (h : Settled object t)
    (k : ι) :
    (turn calls k t.shared (t.callers k)).1.singleton.object = some object ∧
      (turn calls k t.shared (t.callers k)).1.filterProvider object ≠ none := by
  obtain ⟨hkept, -, hfound, -⟩ := @turn_of_factory _ calls _ _ h.object_eq k _ (h.sees k)
  rw [hkept]
  exact ⟨h.object_eq, hfound h.found⟩

theorem Settled.step {object : Nat} {t : State ι FactoryState FactoryPhase} (h : Settled object t)
    (k : ι) : Settled object (Lib.Interleaving.step (FilterProviderFactory.turn calls) t k) where
  object_eq := (h.turn k).1
  sees := step_forall (fun _ _ phase => Sees object phase)
    (turn_of_factory h.object_eq k (h.sees k)).2.1 fun i _ => h.sees i
  found := (h.turn k).2

/-- From there on every `get` finds a provider. -/
theorem Settled.answer_ne_none {object : Nat} {t : State ι FactoryState FactoryPhase}
    (h : Settled object t) {j : ι} (hget : calls j = .get)
    (hbegins : t.callers j = .factory .called) (schedule : List ι)
    {answer : Option FilterProvider}
    (hreturned : (run (FilterProviderFactory.turn calls) t schedule).callers j =
      .returned answer) : answer ≠ none := by
  let Inv (t : State ι FactoryState FactoryPhase) : Prop :=
    Settled object t ∧ ∀ answer, t.callers j = .returned answer → answer ≠ none
  have keeps : ∀ t k, Inv t →
      Inv (Lib.Interleaving.step (FilterProviderFactory.turn calls) t k) := by
    rintro t k ⟨hsettled, hanswer⟩
    refine ⟨hsettled.step k, fun answer hj => ?_⟩
    by_cases hjk : j = k
    · subst hjk
      have hj := (Function.update_self _ _ _).symm.trans hj
      obtain ⟨-, -, -, hreturns⟩ :=
        @turn_of_factory _ calls _ _ hsettled.object_eq j _ (hsettled.sees j)
      rcases hreturns answer hj with hbefore | hnow
      · exact hanswer answer hbefore
      · rw [hget] at hnow
        rw [hnow]
        exact hsettled.found
    · exact hanswer answer ((Function.update_of_ne hjk _ _).symm.trans hj)
  have initially : Inv t := ⟨h, fun answer hj => by
    rw [hbegins] at hj
    cases hj⟩
  exact (run_invariant keeps initially schedule).2 answer hreturned

/-! ## Who makes the factory -/

/-- What one caller alone has brought about, by where it is. -/
def OfOne (s : FactoryState) : FactoryPhase → Prop
  | .factory .called | .factory .making => s.singleton.object = none
  | .factory .made => ∃ object, s.singleton.object = some object
  | .factory (.got got) => ∃ object, got = some object ∧ s.singleton.object = some object
  | .returned _ => ∃ object, s.singleton.object = some object ∧ s.filterProvider object ≠ none

omit [DecidableEq ι] in
/-- One turn of a caller that sets a provider and is alone. -/
theorem ofOne_turn {i : ι} {aFilterProvider : FilterProvider}
    (hset : calls i = .initWith aFilterProvider) {s : FactoryState} {phase : FactoryPhase}
    (h : OfOne s phase) : OfOne (turn calls i s phase).1 (turn calls i s phase).2 := by
  cases phase with
  | returned answer => exact h
  | factory phase =>
    cases phase with
    | called =>
      have hnone : s.singleton.object = none := h
      rw [turn_called, if_pos hnone]
      exact hnone
    | making => exact ⟨_, rfl⟩
    | made =>
      obtain ⟨object, hobject⟩ := h
      exact ⟨object, hobject, hobject⟩
    | got got =>
      obtain ⟨object, rfl, hobject⟩ := h
      rw [turn, hset]
      exact ⟨object, hobject, initWith_ne_none object aFilterProvider s⟩

omit [DecidableEq ι] in
/-- Who has had a turn has begun. -/
theorem turn_ne_called (i : ι) (s : FactoryState) (phase : FactoryPhase) :
    (turn calls i s phase).2 ≠ .factory .called := by
  cases phase with
  | returned answer => exact nofun
  | factory phase =>
    cases phase with
    | called =>
      rw [turn_called]
      split_ifs
      · exact nofun
      · exact nofun
    | making | made => exact nofun
    | got got =>
      cases got with
      | none => exact nofun
      | some object =>
        rw [turn]
        cases calls i with
        | initWith aFilterProvider => exact nofun
        | get => exact nofun

/-- Where a caller that sets a provider has returned and only one other is there, which has not
begun, there is a factory for both and it has a provider. -/
theorem settled_of_two {singleton : Variable} (hnone : singleton.object = none) {i j : ι}
    {aFilterProvider : FilterProvider} (hset : calls i = .initWith aFilterProvider)
    (hij : i ≠ j) (htwo : ∀ k, k = i ∨ k = j) (schedule : List ι)
    (hreturned : ∃ answer, (callersAfter calls singleton schedule).callers i = .returned answer)
    (hbegins : (callersAfter calls singleton schedule).callers j = .factory .called) :
    ∃ object, Settled object (callersAfter calls singleton schedule) := by
  let Inv (t : State ι FactoryState FactoryPhase) : Prop :=
    t.callers j = .factory .called → OfOne t.shared (t.callers i)
  have keeps : ∀ t k, Inv t → Inv (step (turn calls) t k) := by
    intro t k hinv hj
    rcases htwo k with rfl | rfl
    · have hj' : t.callers j = .factory .called :=
        (Function.update_of_ne hij.symm _ _).symm.trans hj
      have hone : (step (turn calls) t k).callers k = (turn calls k t.shared (t.callers k)).2 :=
        Function.update_self _ _ _
      rw [hone]
      exact ofOne_turn hset (hinv hj')
    · have hj' := (Function.update_self k _ t.callers).symm.trans hj
      exact absurd hj' (turn_ne_called _ _ _)
  have initially : Inv (start singleton) := fun _ => hnone
  have hone := run_invariant keeps initially schedule hbegins
  obtain ⟨answer, hreturned⟩ := hreturned
  rw [callersAfter] at hreturned hbegins ⊢
  rw [hreturned] at hone
  obtain ⟨object, hobject, hfound⟩ := hone
  refine ⟨object, hobject, fun k => ?_, hfound⟩
  rcases htwo k with rfl | rfl
  · rw [hreturned]
    trivial
  · rw [hbegins]
    trivial

/-- Where the factory was made before it is the same for all, and a provider that was set is
there. -/
theorem settled_of_factory {singleton : Variable} {object : Nat}
    (hobject : singleton.object = some object) {i : ι} {aFilterProvider : FilterProvider}
    (hset : calls i = .initWith aFilterProvider) (schedule : List ι)
    (hreturned : ∃ answer, (callersAfter calls singleton schedule).callers i = .returned answer) :
    Settled object (callersAfter calls singleton schedule) := by
  let Inv (t : State ι FactoryState FactoryPhase) : Prop :=
    t.shared.singleton.object = some object ∧ (∀ k, Sees object (t.callers k)) ∧
      ∀ answer, t.callers i = .returned answer → t.shared.filterProvider object ≠ none
  have keeps : ∀ t k, Inv t → Inv (step (turn calls) t k) := by
    rintro t k ⟨hobject, hsees, hfound⟩
    obtain ⟨hkept, hsees', hstays, hreturns⟩ := @turn_of_factory _ calls _ _ hobject k _ (hsees k)
    refine ⟨(congrArg Variable.object hkept).trans hobject,
      step_forall (fun _ _ phase => Sees object phase) hsees' fun i _ => hsees i,
      fun answer hi => ?_⟩
    by_cases hik : i = k
    · subst hik
      have hi := (Function.update_self i _ t.callers).symm.trans hi
      rcases hreturns answer hi with hbefore | hnow
      · exact hstays (hfound answer hbefore)
      · rw [hset] at hnow
        exact hnow
    · exact hstays (hfound answer ((Function.update_of_ne hik _ _).symm.trans hi))
  have initially : Inv (start singleton) := by
    refine ⟨hobject, fun _ => trivial, fun answer hi => ?_⟩
    cases hi
  obtain ⟨hobject, hsees, hfound⟩ := run_invariant keeps initially schedule
  obtain ⟨answer, hreturned⟩ := hreturned
  exact ⟨hobject, hsees, hfound answer hreturned⟩

/-- A caller looks before there is a factory, and replaces the one that another has made and set
the provider of. -/
theorem run_replaced {singleton : Variable} (hnone : singleton.object = none) {i j k : ι}
    {aFilterProvider : FilterProvider} (hset : calls i = .initWith aFilterProvider)
    (hget : calls j = .get) (hij : i ≠ j) (hki : k ≠ i) (hkj : k ≠ j) :
    (callersAfter calls singleton [k, i, i, i, i, k]).callers i = .returned none ∧
      (callersAfter calls singleton [k, i, i, i, i, k]).callers j = .factory .called ∧
      (callersAfter calls singleton ([k, i, i, i, i, k] ++ [j, j, j])).callers j =
        .returned none := by
  have hother : singleton.made + 1 ≠ singleton.made := by omega
  simp only [callersAfter, run, List.cons_append, List.nil_append, List.foldl_cons, List.foldl_nil,
    step, start, turn, initWith, get, Lib.LazyObject.turn, hnone, hset, hget, if_true,
    Function.update_self, Function.update_of_ne hij.symm, Function.update_of_ne hki,
    Function.update_of_ne hki.symm, Function.update_of_ne hkj.symm,
    Function.update_of_ne hother, reduceCtorEq, if_false, and_self]

/-- **A provider that was set is found**, whoever calls and however the turns fall, exactly if the
factory was made before the callers started, or whenever one of them sets a provider and another
asks for it there is no third. -/
theorem provider_found_iff (calls : ι → FactoryCall) (singleton : Variable) :
    (∀ (schedule later : List ι) (i j : ι) (aFilterProvider : FilterProvider),
      calls i = .initWith aFilterProvider → calls j = .get →
      (∃ answer, (callersAfter calls singleton schedule).callers i = .returned answer) →
      (callersAfter calls singleton schedule).callers j = .factory .called →
      ∀ answer, (callersAfter calls singleton (schedule ++ later)).callers j = .returned answer →
        answer ≠ none) ↔
    singleton.object ≠ none ∨ ∀ (i j k : ι) (aFilterProvider : FilterProvider),
      calls i = .initWith aFilterProvider → calls j = .get → k = i ∨ k = j := by
  constructor
  · intro h
    by_contra hnot
    obtain ⟨hnone, hthree⟩ := not_or.mp hnot
    push Not at hthree
    obtain ⟨i, j, k, aFilterProvider, hset, hget, hki, hkj⟩ := hthree
    have hij : i ≠ j := by
      rintro rfl
      rw [hset] at hget
      cases hget
    obtain ⟨hi, hj, hlost⟩ := run_replaced (not_not.mp hnone) hset hget hij hki hkj
    exact h _ _ i j aFilterProvider hset hget ⟨none, hi⟩ hj none hlost rfl
  · intro hwhen schedule later i j aFilterProvider hset hget hreturned hbegins answer hanswer
    have hsettled : ∃ object, Settled object (callersAfter calls singleton schedule) := by
      by_cases hnone : singleton.object = none
      · have hij : i ≠ j := by
          rintro rfl
          rw [hset] at hget
          cases hget
        have htwo := hwhen.resolve_left (not_not.mpr hnone)
        exact settled_of_two hnone hset hij
          (fun k => htwo i j k aFilterProvider hset hget) schedule hreturned hbegins
      · obtain ⟨object, hobject⟩ := Option.ne_none_iff_exists'.mp hnone
        exact ⟨object, settled_of_factory hobject hset schedule hreturned⟩
    obtain ⟨object, hsettled⟩ := hsettled
    rw [callersAfter, run, List.foldl_append] at hanswer
    exact hsettled.answer_ne_none hget hbegins later hanswer

end ObjCSword.FilterProviderFactory
