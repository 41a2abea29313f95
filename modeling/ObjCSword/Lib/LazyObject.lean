import Mathlib.Logic.Nontrivial.Basic
import ObjCSword.Lib.Interleaving

/-!
# An object that is made when it is first needed

A variable holds an object, or none so far. Who needs the object looks into the variable, makes an
object and puts it there if there is none, and takes what the variable holds then. Where there is an
object nobody makes another one (`turn_of_object`), but several callers that find none may each make
an object of their own.

Where the object is a lock that callers hold while they work, no two are at work at once, whatever
the interleaving, exactly if there was a lock before or there is one caller only (`alone_iff`). The
lock that is given back is the one the variable holds by then, so where a second lock was made the
first is never given back, and who waits for it waits for ever (`waits_forever`).
-/

namespace Lib.LazyObject

open Lib.Interleaving

variable {ι ρ : Type}

/-- The variable, and how many objects were made. An object is known by its number. -/
structure Variable where
  object : Option Nat
  made : Nat

/-- Where a caller is. -/
inductive Phase where
  | called
  | making
  | made
  | got (object : Option Nat)
deriving DecidableEq

/-- The next step of a caller. -/
def turn (_ : ι) (s : Variable) : Phase → Variable × Phase
  | .called => (s, if s.object = none then .making else .made)
  | .making => (⟨some s.made, s.made + 1⟩, .made)
  | .made => (s, .got s.object)
  | .got object => (s, .got object)

/-- A caller that will get this object, or has got it. -/
def Sees (object : Nat) : Phase → Prop
  | .called | .made => True
  | .making => False
  | .got got => got = some object

/-- Where there is an object nobody makes another one. -/
theorem turn_of_object {object : Nat} {s : Variable} (hobject : s.object = some object) (i : ι)
    {phase : Phase} (h : Sees object phase) :
    (turn i s phase).1 = s ∧ Sees object (turn i s phase).2 := by
  cases phase with
  | called =>
    have hsome : s.object ≠ none := by
      rw [hobject]
      exact nofun
    rw [turn, if_neg hsome]
    exact ⟨rfl, trivial⟩
  | making => exact h.elim
  | made => exact ⟨rfl, hobject⟩
  | got got => exact ⟨rfl, h⟩

/-! ## A lock -/

/-- The variable, and the callers that have the locks. -/
structure LockShared (ι : Type) where
  lock : Variable
  owner : Nat → Option ι

/-- Where a caller is that works under the lock. -/
inductive LockPhase (ρ : Type) where
  | getting (phase : Phase)
  | inside
  | worked (result : ρ)
  | returned (result : ρ)

/-- The next step of a caller. What its work gives is said by `work`. -/
def lockTurn (work : ι → ρ) (i : ι) (s : LockShared ι) : LockPhase ρ → LockShared ι × LockPhase ρ
  | .getting (.got none) => (s, .inside)   -- nothing is locked
  | .getting (.got (some lock)) =>
    -- a lock that a caller has is waited for
    if s.owner lock = none then
      ({ s with owner := Function.update s.owner lock (some i) }, .inside)
    else (s, .getting (.got (some lock)))
  | .getting phase =>
    let (lock, phase) := turn i s.lock phase
    ({ s with lock := lock }, .getting phase)
  | .inside => (s, .worked (work i))
  | .worked result =>
    match s.lock.object with
    | some lock => ({ s with owner := Function.update s.owner lock none }, .returned result)
    | none => (s, .returned result)
  | .returned result => (s, .returned result)

def LockPhase.Inside : LockPhase ρ → Prop
  | inside | worked _ => True
  | getting _ | returned _ => False

/-- A caller that has only to do with this lock. -/
def LockPhase.Sees (lock : Nat) : LockPhase ρ → Prop
  | getting phase => LazyObject.Sees lock phase
  | inside | worked _ | returned _ => True

def lockStart (s : Variable) : State ι (LockShared ι) (LockPhase ρ) :=
  ⟨⟨s, fun _ => none⟩, fun _ => .getting .called⟩

variable {work : ι → ρ}

/-- Where there is a lock all turns are by that lock. -/
theorem lockTurn_of_object {lock : Nat} {s : LockShared ι} (hobject : s.lock.object = some lock)
    (i : ι) {phase : LockPhase ρ} (h : phase.Sees lock) :
    (lockTurn work i s phase).1.lock = s.lock ∧ (lockTurn work i s phase).2.Sees lock ∧
      Obeys s.owner (lockTurn work i s phase).1.owner i lock phase.Inside
        (lockTurn work i s phase).2.Inside := by
  cases phase with
  | inside => exact ⟨rfl, trivial, .keeps rfl Iff.rfl⟩
  | worked result =>
    rw [lockTurn, hobject]
    exact ⟨rfl, trivial, .gives trivial id rfl⟩
  | returned result => exact ⟨rfl, trivial, .keeps rfl Iff.rfl⟩
  | getting phase =>
    cases phase with
    | got object =>
      have hgot : object = some lock := h
      subst hgot
      rw [lockTurn]
      by_cases hfree : s.owner lock = none
      · rw [if_pos hfree]
        exact ⟨rfl, trivial, .takes hfree id trivial rfl⟩
      · rw [if_neg hfree]
        exact ⟨rfl, rfl, .keeps rfl Iff.rfl⟩
    | called =>
      have hcalled : LazyObject.Sees lock .called := h
      obtain ⟨hkept, hsees⟩ := turn_of_object hobject i hcalled
      exact ⟨hkept, hsees, .keeps rfl Iff.rfl⟩
    | making => exact h.elim
    | made =>
      have hmade : LazyObject.Sees lock .made := h
      obtain ⟨hkept, hsees⟩ := turn_of_object hobject i hmade
      exact ⟨hkept, hsees, .keeps rfl Iff.rfl⟩

section Locks

variable [DecidableEq ι]

/-- In every run there is one lock, and the callers inside own it. -/
theorem lockRun_of_object {lock : Nat} {s : Variable} (hobject : s.object = some lock)
    (schedule : List ι) :
    Owned (fun shared : LockShared ι => shared.owner) (fun _ => lock) LockPhase.Inside
      (run (lockTurn work) (lockStart s) schedule) := by
  let Inv (t : State ι (LockShared ι) (LockPhase ρ)) : Prop :=
    t.shared.lock = s ∧ (∀ i, (t.callers i).Sees lock) ∧
      Owned (fun shared : LockShared ι => shared.owner) (fun _ => lock) LockPhase.Inside t
  have keeps : ∀ t k, Inv t → Inv (step (lockTurn work) t k) := by
    rintro t k ⟨hlock, hsees, howned⟩
    have hobject' : t.shared.lock.object = some lock := by
      rw [hlock]
      exact hobject
    obtain ⟨hkept, hsees', hobeys⟩ := lockTurn_of_object hobject' k (hsees k)
    exact ⟨hkept.trans hlock, step_forall (fun _ _ phase => LockPhase.Sees lock phase) hsees'
      fun i _ => hsees i, howned.step hobeys⟩
  have initially : Inv (lockStart s) := ⟨rfl, fun _ => trivial, fun _ => iff_of_false id nofun⟩
  exact (run_invariant keeps initially schedule).2.2

/-- Two callers that make a lock each, and take it. -/
def lockRace (i j : ι) : List ι := [i, j, i, i, i, j, j, j]

theorem run_lockRace {s : Variable} (hnone : s.object = none) {i j : ι} (hne : i ≠ j) :
    ((run (lockTurn work) (lockStart s) (lockRace i j)).callers i).Inside ∧
      ((run (lockTurn work) (lockStart s) (lockRace i j)).callers j).Inside := by
  have hlocks : s.made + 1 ≠ s.made := by omega
  simp only [run, lockRace, List.foldl_cons, List.foldl_nil, step, lockStart, lockTurn, turn, hnone,
    if_true, Function.update_self, Function.update_of_ne hne, Function.update_of_ne hne.symm,
    Function.update_of_ne hlocks, LockPhase.Inside, and_self]

/-- **No two callers are at work at once**, in every interleaving, exactly if the lock was there
before or there is no second caller. -/
theorem alone_iff (s : Variable) :
    (∀ (schedule : List ι) i j, ((run (lockTurn work) (lockStart s) schedule).callers i).Inside →
      ((run (lockTurn work) (lockStart s) schedule).callers j).Inside → i = j) ↔
    s.object ≠ none ∨ Subsingleton ι := by
  constructor
  · intro h
    by_contra hnot
    obtain ⟨hnone, hmany⟩ := not_or.mp hnot
    obtain ⟨i, j, hne⟩ := not_subsingleton_iff_nontrivial.mp hmany
    obtain ⟨hi, hj⟩ := @run_lockRace _ _ work _ _ (not_not.mp hnone) _ _ hne
    exact hne (h (lockRace i j) i j hi hj)
  · rintro (hsome | hone) schedule i j hi hj
    · obtain ⟨lock, hobject⟩ := Option.ne_none_iff_exists'.mp hsome
      exact (lockRun_of_object hobject schedule).eq hi hj rfl
    · exact hone.elim i j

/-- A lock that a caller has, and which the variable no longer holds. -/
structure Lost (lock : Nat) (s : LockShared ι) : Prop where
  taken : s.owner lock ≠ none
  newer : ∃ newer, s.lock.object = some newer ∧ lock < newer
  made : lock < s.lock.made

omit [DecidableEq ι] in
/-- Such a lock is never given back. -/
theorem Lost.turn {lock : Nat} {s : LockShared ι} (h : Lost lock s) (i : ι)
    (phase : LockPhase ρ) : Lost lock (lockTurn work i s phase).1 := by
  obtain ⟨newer, hobject, hlt⟩ := h.newer
  cases phase with
  | inside => exact h
  | returned result => exact h
  | worked result =>
    rw [lockTurn, hobject]
    refine ⟨?_, ⟨newer, hobject, hlt⟩, h.made⟩
    dsimp only
    rw [Function.update_of_ne (Nat.ne_of_lt hlt)]
    exact h.taken
  | getting phase =>
    cases phase with
    | called => exact h
    | made => exact h
    | making => exact ⟨h.taken, ⟨s.lock.made, rfl, h.made⟩, Nat.lt_succ_of_lt h.made⟩
    | got object =>
      cases object with
      | none => exact h
      | some other =>
        rw [lockTurn]
        by_cases hfree : s.owner other = none
        · have hne : lock ≠ other := by
            rintro rfl
            exact h.taken hfree
          rw [if_pos hfree]
          refine ⟨?_, h.newer, h.made⟩
          dsimp only
          rw [Function.update_of_ne hne]
          exact h.taken
        · rw [if_neg hfree]
          exact h

/-- Who waits for it goes on waiting. -/
theorem waits_of_lost {lock : Nat} {s : State ι (LockShared ι) (LockPhase ρ)} {k : ι}
    (hlost : Lost lock s.shared) (hwaits : s.callers k = .getting (.got (some lock)))
    (schedule : List ι) :
    (run (lockTurn work) s schedule).callers k = .getting (.got (some lock)) := by
  let Inv (t : State ι (LockShared ι) (LockPhase ρ)) : Prop :=
    Lost lock t.shared ∧ t.callers k = .getting (.got (some lock))
  have keeps : ∀ t i, Inv t → Inv (step (lockTurn work) t i) := by
    rintro t i ⟨hlost, hwaits⟩
    refine ⟨hlost.turn i _, ?_⟩
    by_cases hik : k = i
    · subst hik
      have hturn : (lockTurn work k t.shared (t.callers k)).2 = .getting (.got (some lock)) := by
        rw [hwaits, lockTurn, if_neg hlost.taken]
      exact (Function.update_self _ _ _).trans hturn
    · exact (Function.update_of_ne hik _ _).trans hwaits
  exact (run_invariant keeps (show Inv s from ⟨hlost, hwaits⟩) schedule).2

/-- One caller has a lock and another waits for it, when a third one makes a new one. -/
def lossRace (i j k : ι) : List ι := [j, i, i, i, i, k, k, j]

theorem run_lossRace {s : Variable} (hnone : s.object = none) {i j k : ι} (hij : i ≠ j)
    (hik : i ≠ k) (hjk : j ≠ k) :
    (run (lockTurn work) (lockStart s) (lossRace i j k)).shared.lock =
        ⟨some (s.made + 1), s.made + 1 + 1⟩ ∧
      (run (lockTurn work) (lockStart s) (lossRace i j k)).shared.owner s.made = some i ∧
      (run (lockTurn work) (lockStart s) (lossRace i j k)).callers k =
        .getting (.got (some s.made)) := by
  simp [run, lossRace, step, lockStart, lockTurn, turn, hnone, hij, hjk, hij.symm, hik.symm,
    hjk.symm]

/-- **Three callers can lose the lock**: there are turns after which one of them never gets to its
work, whatever turns follow. -/
theorem waits_forever {s : Variable} (hnone : s.object = none) {i j k : ι} (hij : i ≠ j)
    (hik : i ≠ k) (hjk : j ≠ k) :
    ∃ schedule : List ι, ∀ later,
      (run (lockTurn work) (lockStart s) (schedule ++ later)).callers k =
        .getting (.got (some s.made)) := by
  obtain ⟨hlock, howner, hwaits⟩ := @run_lossRace _ _ work _ _ hnone _ _ _ hij hik hjk
  have hlost : Lost s.made (run (lockTurn work) (lockStart s) (lossRace i j k)).shared := by
    refine ⟨?_, ⟨s.made + 1, ?_, Nat.lt_succ_self _⟩, ?_⟩
    · rw [howner]
      exact nofun
    · rw [hlock]
    · rw [hlock]
      exact Nat.lt_succ_of_lt (Nat.lt_succ_self _)
  refine ⟨lossRace i j k, fun later => ?_⟩
  have hrun : run (lockTurn work) (lockStart s) (lossRace i j k ++ later) =
      run (lockTurn work) (run (lockTurn work) (lockStart s) (lossRace i j k)) later :=
    List.foldl_append
  rw [hrun]
  exact waits_of_lost hlost hwaits later

end Locks

end Lib.LazyObject
