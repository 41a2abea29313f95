import Mathlib.Data.Fintype.Card
import ObjCSword.Lib.Monitor

/-!
# Schedules in which everybody gets turns

An endless schedule is **fair** when every caller gets a turn again and again. Under such a schedule
methods that run under a lock come to an end, all of them: a caller that is inside goes on at each of
its turns, and the lock that another waits for is given back. Which lock a call takes does not
matter, since it takes one only.
-/

namespace Lib.Interleaving

variable {ι σ τ : Type} [DecidableEq ι]

/-- Every caller gets a turn again and again. -/
def Fair (schedule : Nat → ι) : Prop := ∀ i n, ∃ m, n ≤ m ∧ schedule m = i

/-- The state after the first turns of an endless schedule. -/
def atTime (turn : ι → σ → τ → σ × τ) (s : State ι σ τ) (schedule : Nat → ι) (n : Nat) :
    State ι σ τ :=
  run turn s ((List.range n).map schedule)

variable {turn : ι → σ → τ → σ × τ} {s : State ι σ τ} {schedule : Nat → ι}

theorem atTime_succ (n : Nat) :
    atTime turn s schedule (n + 1) = step turn (atTime turn s schedule n) (schedule n) := by
  rw [atTime, run, List.range_succ, List.map_append, List.foldl_append]
  rfl

/-- Until its next turn a caller stays where it is. -/
theorem callers_of_no_turn {i : ι} {n m : Nat} (hle : n ≤ m)
    (h : ∀ k, n ≤ k → k < m → schedule k ≠ i) :
    (atTime turn s schedule m).callers i = (atTime turn s schedule n).callers i := by
  induction m, hle using Nat.le_induction with
  | base => rfl
  | succ m hle ih =>
    rw [atTime_succ, ← ih fun k hk hkm => h k hk (Nat.lt_succ_of_lt hkm)]
    exact Function.update_of_ne (h m hle (Nat.lt_succ_self m)).symm _ _

/-- The next turn of a caller finds it where it is now. -/
theorem Fair.next_turn (fair : Fair schedule) (i : ι) (n : Nat) :
    ∃ m, n ≤ m ∧ schedule m = i ∧
      (atTime turn s schedule m).callers i = (atTime turn s schedule n).callers i := by
  classical
  let m := Nat.find (fair i n)
  obtain ⟨hle, hm⟩ : n ≤ m ∧ schedule m = i := Nat.find_spec (fair i n)
  refine ⟨m, hle, hm, callers_of_no_turn hle fun k hk hkm hturn => ?_⟩
  exact Nat.find_min (fair i n) hkm ⟨hk, hturn⟩

end Lib.Interleaving

namespace Lib.Monitor

open Lib.Interleaving

variable {ι κ σ ρ : Type} [DecidableEq ι] [DecidableEq κ] {calls : ι → Call κ σ ρ}
  {s : State ι (Shared ι κ σ) (Phase σ ρ)} {schedule : Nat → ι}

/-- The call has returned. -/
def Phase.Returned (phase : Phase σ ρ) : Prop := ∃ result, phase = returned result

/-- The next turn of a caller is taken from where it is now. -/
theorem next_turn (fair : Fair schedule) (calls : ι → Call κ σ ρ)
    (s : State ι (Shared ι κ σ) (Phase σ ρ)) (i : ι) (n : Nat) :
    ∃ m, n ≤ m ∧ (atTime (turn calls) s schedule (m + 1)).callers i =
      (turn calls i (atTime (turn calls) s schedule m).shared
        ((atTime (turn calls) s schedule n).callers i)).2 := by
  obtain ⟨m, hle, hturn, hsame⟩ : ∃ m, n ≤ m ∧ schedule m = i ∧
    (atTime (turn calls) s schedule m).callers i =
      (atTime (turn calls) s schedule n).callers i := fair.next_turn i n
  refine ⟨m, hle, ?_⟩
  rw [atTime_succ, hturn, ← hsame]
  exact Function.update_self _ _ _

/-- A call that has returned stays so. -/
theorem returned_stays {i : ι} {n m : Nat} (hle : n ≤ m)
    (h : ((atTime (turn calls) s schedule n).callers i).Returned) :
    ((atTime (turn calls) s schedule m).callers i).Returned := by
  induction m, hle using Nat.le_induction with
  | base => exact h
  | succ m hle ih =>
    obtain ⟨result, hresult⟩ := ih
    refine ⟨result, ?_⟩
    rw [atTime_succ]
    by_cases hturn : i = schedule m
    · rw [step_idle (by rw [← hturn, hresult]; rfl)]
      exact hresult
    · rw [← hresult]
      exact Function.update_of_ne hturn _ _

theorem left_returns (fair : Fair schedule) {i : ι} {n : Nat} {result : ρ}
    (h : (atTime (turn calls) s schedule n).callers i = .left result) :
    ∃ m, n ≤ m ∧ ((atTime (turn calls) s schedule m).callers i).Returned := by
  obtain ⟨m, hle, hnext⟩ := next_turn fair calls s i n
  rw [h] at hnext
  exact ⟨m + 1, by omega, _, hnext⟩

/-- A caller that is inside goes on at each of its turns, whatever the others have done to the state
by then, and so comes to the end of its body. -/
theorem inside_returns (fair : Fair schedule) {i : ι} (rest : Program σ ρ) {n : Nat}
    (h : (atTime (turn calls) s schedule n).callers i = .inside rest) :
    ∃ m, n ≤ m ∧ ((atTime (turn calls) s schedule m).callers i).Returned := by
  induction rest generalizing n with
  | done result =>
    obtain ⟨m, hle, hnext⟩ := next_turn fair calls s i n
    rw [h] at hnext
    obtain ⟨m', hle', hreturned⟩ := left_returns fair hnext
    exact ⟨m', by omega, hreturned⟩
  | work change next ih =>
    obtain ⟨m, hle, hnext⟩ := next_turn fair calls s i n
    rw [h] at hnext
    obtain ⟨m', hle', hreturned⟩ := ih _ hnext
    exact ⟨m', by omega, hreturned⟩

/-- A caller has no lock but that of its call, and has that while it is inside. -/
structure Orderly (calls : ι → Call κ σ ρ) (s : State ι (Shared ι κ σ) (Phase σ ρ)) : Prop where
  owned : LocksOwned calls s
  own : ∀ lock i, s.shared.owner lock = some i → lock = (calls i).lock

omit [DecidableEq ι] [DecidableEq κ] in
theorem orderly_start (state : σ) : Orderly calls (start state) :=
  ⟨locksOwned_start state, nofun⟩

omit [DecidableEq ι] [DecidableEq κ] in
/-- The one that has a lock is inside. -/
theorem Orderly.inside (h : Orderly calls s) {lock : κ} {i : ι}
    (howner : s.shared.owner lock = some i) : ∃ rest, s.callers i = .inside rest := by
  refine Phase.inside_iff.mp ((h.owned i).mpr ?_)
  dsimp only
  rw [← h.own lock i howner]
  exact howner

theorem Orderly.step (h : Orderly calls s) (k : ι) : Orderly calls (step (turn calls) s k) := by
  refine ⟨h.owned.step k, fun lock i howner => ?_⟩
  have hobeys := @turn_obeys ι κ σ ρ _ calls k s.shared (s.callers k)
  change (turn calls k s.shared (s.callers k)).1.owner lock = some i at howner
  cases hobeys with
  | keeps hsame hinside =>
    rw [hsame] at howner
    exact h.own lock i howner
  | takes free outside enters hsame =>
    rw [hsame] at howner
    by_cases hlock : lock = (calls k).lock
    · rw [hlock, Function.update_self] at howner
      cases howner
      exact hlock
    · rw [Function.update_of_ne hlock] at howner
      exact h.own lock i howner
  | gives hinside leaves hsame =>
    rw [hsame] at howner
    by_cases hlock : lock = (calls k).lock
    · rw [hlock, Function.update_self] at howner
      cases howner
    · rw [Function.update_of_ne hlock] at howner
      exact h.own lock i howner

theorem Orderly.atTime (h : Orderly calls s) (n : Nat) :
    Orderly calls (atTime (turn calls) s schedule n) := by
  have keeps : ∀ s k, Orderly calls s → Orderly calls (Interleaving.step (turn calls) s k) :=
    fun _ k h => h.step k
  exact run_invariant keeps h _

/-- As long as a call has not returned, one that has not will. -/
theorem some_returns (fair : Fair schedule) (horderly : Orderly calls s) {i : ι} {n : Nat}
    (h : ¬ ((atTime (turn calls) s schedule n).callers i).Returned) :
    ∃ m j, n ≤ m ∧ ¬ ((atTime (turn calls) s schedule n).callers j).Returned ∧
      ((atTime (turn calls) s schedule m).callers j).Returned := by
  cases hphase : (atTime (turn calls) s schedule n).callers i with
  | returned result => exact absurd ⟨result, hphase⟩ h
  | left result =>
    obtain ⟨m, hle, hreturned⟩ := left_returns fair hphase
    exact ⟨m, i, hle, h, hreturned⟩
  | inside rest =>
    obtain ⟨m, hle, hreturned⟩ := inside_returns fair rest hphase
    exact ⟨m, i, hle, h, hreturned⟩
  | called =>
    obtain ⟨m, hle, hnext⟩ := next_turn fair calls s i n
    rw [hphase] at hnext
    cases howner : (atTime (turn calls) s schedule m).shared.owner (calls i).lock with
    | none =>
      -- the lock is free at the next turn, which takes it
      rw [turn_called_of_free howner] at hnext
      obtain ⟨m', hle', hreturned⟩ := inside_returns fair _ hnext
      exact ⟨m', i, by omega, h, hreturned⟩
    | some j =>
      -- or a caller has it, which is inside and will return
      obtain ⟨rest, hrest⟩ := (horderly.atTime m).inside howner
      obtain ⟨m', hle', hreturned⟩ := inside_returns fair rest hrest
      refine ⟨m', j, by omega, fun hbefore => ?_, hreturned⟩
      obtain ⟨result, hresult⟩ := returned_stays hle hbefore
      rw [hrest] at hresult
      cases hresult

/-- **Under a fair schedule all calls return**, whatever locks they take. -/
theorem all_return [Finite ι] (fair : Fair schedule) (horderly : Orderly calls s) :
    ∃ n, ∀ i, ((atTime (turn calls) s schedule n).callers i).Returned := by
  classical
  obtain ⟨_⟩ := nonempty_fintype ι
  let pending (n : Nat) : Finset ι :=
    Finset.univ.filter fun i => ¬ ((atTime (turn calls) s schedule n).callers i).Returned
  -- by the number of calls that have not returned
  have hall : ∀ count n, (pending n).card ≤ count →
      ∃ m, ∀ i, ((atTime (turn calls) s schedule m).callers i).Returned := by
    intro count
    induction count with
    | zero =>
      intro n hcard
      refine ⟨n, fun i => ?_⟩
      by_contra hi
      have hmem : i ∈ pending n := Finset.mem_filter.mpr ⟨Finset.mem_univ i, hi⟩
      rw [Finset.card_eq_zero.mp (Nat.le_zero.mp hcard)] at hmem
      exact absurd hmem (Finset.notMem_empty i)
    | succ count ih =>
      intro n hcard
      by_cases hdone : ∀ i, ((atTime (turn calls) s schedule n).callers i).Returned
      · exact ⟨n, hdone⟩
      · obtain ⟨i, hi⟩ := not_forall.mp hdone
        obtain ⟨m, j, hle, hj, hreturned⟩ := some_returns fair horderly hi
        have hsubset : pending m ⊆ pending n := by
          intro k hk
          exact Finset.mem_filter.mpr ⟨Finset.mem_univ k, fun hbefore =>
            (Finset.mem_filter.mp hk).2 (returned_stays hle hbefore)⟩
        have hless : pending m ⊂ pending n :=
          (Finset.ssubset_iff_of_subset hsubset).mpr
            ⟨j, Finset.mem_filter.mpr ⟨Finset.mem_univ j, hj⟩, fun hmem =>
              (Finset.mem_filter.mp hmem).2 hreturned⟩
        have hcount := Finset.card_lt_card hless
        exact ih m (by omega)
  exact hall _ 0 (Nat.le_refl _)

end Lib.Monitor
