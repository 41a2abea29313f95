import Mathlib.Logic.Function.Basic

/-!
# Interleaved callers

Any number of callers take turns on a state that they share. A caller has a state of its own, where
it is in its call, and its turn is a function of both states. A run is the list of the callers in
the order in which they take their turns, so a statement for every list is one for every
interleaving.

- `step_forall` and `run_invariant` prove what holds of every caller throughout: a turn has to bring
  it about for the caller that takes it, and must not disturb it for the others.
- `run_replicate` is a caller that is left alone, and `run_map` carries a run over to callers that
  have more to do.
- A turn that `Obeys` a lock keeps the callers that are inside apart (`Owned.step`, `Owned.eq`).
-/

namespace Lib.Interleaving

variable {ι σ τ : Type} [DecidableEq ι]

/-- The shared state, and the state of each caller. -/
structure State (ι σ τ : Type) where
  shared : σ
  callers : ι → τ

/-- One caller takes its turn. -/
def step (turn : ι → σ → τ → σ × τ) (s : State ι σ τ) (i : ι) : State ι σ τ :=
  ⟨(turn i s.shared (s.callers i)).1,
    Function.update s.callers i (turn i s.shared (s.callers i)).2⟩

def run (turn : ι → σ → τ → σ × τ) (s : State ι σ τ) (schedule : List ι) : State ι σ τ :=
  schedule.foldl (step turn) s

variable {turn : ι → σ → τ → σ × τ}

/-- A turn makes a statement true for the caller that takes it, and keeps it for the others. -/
theorem step_forall (Q : ι → σ → τ → Prop) {s : State ι σ τ} {k : ι}
    (own : Q k (turn k s.shared (s.callers k)).1 (turn k s.shared (s.callers k)).2)
    (others : ∀ i, i ≠ k → Q i (turn k s.shared (s.callers k)).1 (s.callers i)) (i : ι) :
    Q i (step turn s k).shared ((step turn s k).callers i) := by
  show Q i (turn k s.shared (s.callers k)).1 (Function.update s.callers k _ i)
  by_cases h : i = k
  · subst h
    rw [Function.update_self]
    exact own
  · rw [Function.update_of_ne h]
    exact others i h

/-- What every turn keeps holds after every run. -/
theorem run_invariant {Inv : State ι σ τ → Prop} (keeps : ∀ s k, Inv s → Inv (step turn s k))
    {s : State ι σ τ} (start : Inv s) (schedule : List ι) : Inv (run turn s schedule) := by
  induction schedule generalizing s with
  | nil => exact start
  | cons k schedule ih => exact ih (keeps s k start)

/-- The turns of a caller that is left alone. -/
def turns (turn : ι → σ → τ → σ × τ) (i : ι) : Nat → σ → τ → σ × τ
  | 0, s, t => (s, t)
  | n + 1, s, t => turns turn i n (turn i s t).1 (turn i s t).2

theorem run_replicate (s : State ι σ τ) (i : ι) (n : Nat) :
    run turn s (List.replicate n i) =
      ⟨(turns turn i n s.shared (s.callers i)).1,
        Function.update s.callers i (turns turn i n s.shared (s.callers i)).2⟩ := by
  induction n generalizing s with
  | zero => rw [turns, Function.update_eq_self]; rfl
  | succ n ih =>
    have hnext := ih (step turn s i)
    have hself : (step turn s i).callers i = (turn i s.shared (s.callers i)).2 :=
      Function.update_self _ _ _
    rw [hself] at hnext
    rw [List.replicate_succ, turns]
    refine hnext.trans ?_
    rw [step, Function.update_idem]

/-! ## Two systems -/

/-- A state, with what the callers of another system see of their own states. -/
def State.map {υ : Type} (f : τ → υ) (s : State ι σ τ) : State ι σ υ :=
  ⟨s.shared, fun i => f (s.callers i)⟩

section Map

variable {υ : Type} {turn' : ι → σ → υ → σ × υ} {f : τ → υ}
  (sees : ∀ i s t, turn' i s (f t) = ((turn i s t).1, f (turn i s t).2))

include sees

/-- Where every turn does to the shared state and to what is seen of a caller's own what a turn of
another system does, a step is one of that system. -/
theorem step_map (s : State ι σ τ) (i : ι) : step turn' (s.map f) i = (step turn s i).map f := by
  have hcallers : Function.update (fun j => f (s.callers j)) i
      (f (turn i s.shared (s.callers i)).2) =
        fun j => f (Function.update s.callers i (turn i s.shared (s.callers i)).2 j) := by
    funext j
    by_cases h : j = i
    · rw [h, Function.update_self, Function.update_self]
    · rw [Function.update_of_ne h, Function.update_of_ne h]
  unfold step State.map
  rw [sees, hcallers]

/-- So is a run. -/
theorem run_map (s : State ι σ τ) (schedule : List ι) :
    run turn' (s.map f) schedule = (run turn s schedule).map f := by
  induction schedule generalizing s with
  | nil => rfl
  | cons i schedule ih =>
    have hrest := ih (step turn s i)
    rw [← step_map sees] at hrest
    exact hrest

end Map

/-! ## Locks -/

section Locks

variable {κ : Type} [DecidableEq κ]

/-- What a turn does to the owners of the locks: nothing, or the caller takes its free lock and is
inside, or it gives its lock back and is not. -/
inductive Obeys (owner owner' : κ → Option ι) (i : ι) (lock : κ) (inside inside' : Prop) : Prop
  | keeps (howner : owner' = owner) (hinside : inside' ↔ inside)
  | takes (free : owner lock = none) (outside : ¬ inside) (enters : inside')
      (howner : owner' = Function.update owner lock (some i))
  | gives (hinside : inside) (leaves : ¬ inside') (howner : owner' = Function.update owner lock none)

/-- The callers inside are the owners of their locks. -/
def Owned (owner : σ → κ → Option ι) (lock : ι → κ) (inside : τ → Prop) (s : State ι σ τ) : Prop :=
  ∀ i, inside (s.callers i) ↔ owner s.shared (lock i) = some i

variable {owner : σ → κ → Option ι} {lock : ι → κ} {inside : τ → Prop} {s : State ι σ τ}

omit [DecidableEq ι] [DecidableEq κ] in
/-- Two callers inside have different locks. -/
theorem Owned.eq (h : Owned owner lock inside s) {i j : ι} (hi : inside (s.callers i))
    (hj : inside (s.callers j)) (hlock : lock i = lock j) : i = j := by
  have howner := (h i).mp hi
  rw [hlock, (h j).mp hj] at howner
  exact (Option.some.inj howner).symm

theorem Owned.step (h : Owned owner lock inside s) {k : ι}
    (hobeys : Obeys (owner s.shared) (owner (turn k s.shared (s.callers k)).1) k (lock k)
      (inside (s.callers k)) (inside (turn k s.shared (s.callers k)).2)) :
    Owned owner lock inside (step turn s k) := by
  refine step_forall (fun i shared caller =>
    inside caller ↔ owner shared (lock i) = some i) ?_ fun i hne => ?_
  · cases hobeys with
    | keeps howner hinside => rw [howner, hinside, h k]
    | takes free outside enters howner =>
      rw [howner, Function.update_self]
      exact iff_of_true enters rfl
    | gives hinside leaves howner =>
      rw [howner, Function.update_self]
      exact iff_of_false leaves nofun
  · cases hobeys with
    | keeps howner hinside => rw [howner, h i]
    | takes free outside enters howner =>
      rw [howner]
      by_cases hlock : lock i = lock k
      · rw [h i, hlock, Function.update_self, free]
        exact iff_of_false nofun fun heq => hne (Option.some.inj heq).symm
      · rw [h i, Function.update_of_ne hlock]
    | gives hinside leaves howner =>
      rw [howner]
      by_cases hlock : lock i = lock k
      · rw [h i, hlock, Function.update_self, (h k).mp hinside]
        exact iff_of_false (fun heq => hne (Option.some.inj heq).symm) nofun
      · rw [h i, Function.update_of_ne hlock]

end Locks

end Lib.Interleaving
