import Mathlib.Data.List.Induction
import Mathlib.Data.List.Nodup
import ObjCSword.Lib.Interleaving

/-!
# Methods that run under a lock

A method of an object takes a lock, works on a state that others work on too, and gives the lock
back. Its body is a `Program`: pieces of work, each of which changes the state at once, and a result
at the end. In between any other caller may take its turn.

Callers that have one lock are as good as callers that come one after the other: whatever the
interleaving, the results and the state are those of the bodies run whole, in the order in which the
lock was given back (`serial_run`). The order is `log`, which can be computed from the schedule.
-/

namespace Lib.Monitor

open Lib.Interleaving

/-! ## Programs -/

/-- The body of a method: it ends with a result, or it changes the state and goes on by what the
state was. -/
inductive Program (σ : Type) (ρ : Type) : Type where
  | done (result : ρ)
  | work (change : σ → σ) (next : σ → Program σ ρ)

namespace Program

variable {σ ρ α : Type}

/-- The program as a whole. -/
def run : Program σ ρ → σ → ρ × σ
  | done result, s => (result, s)
  | work change next, s => (next s).run (change s)

def bind : Program σ α → (α → Program σ ρ) → Program σ ρ
  | done a, f => f a
  | work change next, f => work change fun s => (next s).bind f

instance : Monad (Program σ) where
  pure := done
  bind := bind

/-- One piece of work, with an answer. -/
def act (f : σ → α × σ) : Program σ α := work (fun s => (f s).2) fun s => done (f s).1

@[simp] theorem run_pure (a : α) (s : σ) : (pure a : Program σ α).run s = (a, s) := rfl

@[simp] theorem run_act (f : σ → α × σ) (s : σ) : (act f).run s = f s := rfl

@[simp] theorem run_bind (p : Program σ α) (f : α → Program σ ρ) (s : σ) :
    (p >>= f).run s = (f (p.run s).1).run (p.run s).2 := by
  show (p.bind f).run s = _
  induction p generalizing s with
  | done a => rfl
  | work change next ih => exact ih s (change s)

end Program

/-! ## Callers -/

/-- A call of a method: the lock of its object, its body, and what is done to the result once the
lock was given back, which may look at the state and not change it. -/
structure Call (κ σ ρ : Type) where
  lock : κ
  body : Program σ ρ
  after : σ → ρ → ρ := fun _ result => result

/-- Where a call is. -/
inductive Phase (σ ρ : Type) where
  | called
  | inside (rest : Program σ ρ)
  | left (result : ρ)
  | returned (result : ρ)

/-- The callers that have the locks, and the state they work on. -/
structure Shared (ι κ σ : Type) where
  owner : κ → Option ι
  state : σ

variable {ι κ σ ρ : Type}

def Phase.Inside : Phase σ ρ → Prop
  | inside _ => True
  | called | left _ | returned _ => False

theorem Phase.inside_iff {phase : Phase σ ρ} : phase.Inside ↔ ∃ rest, phase = inside rest := by
  cases phase with
  | inside rest => exact iff_of_true trivial ⟨rest, rfl⟩
  | called => exact iff_of_false id nofun
  | left result => exact iff_of_false id nofun
  | returned result => exact iff_of_false id nofun

/-- The lock was given back. -/
def Phase.Over : Phase σ ρ → Prop
  | left _ | returned _ => True
  | called | inside _ => False

section Turns

variable [DecidableEq κ]

/-- The next step of a call. -/
def turn (calls : ι → Call κ σ ρ) (i : ι) (s : Shared ι κ σ) :
    Phase σ ρ → Shared ι κ σ × Phase σ ρ
  | .called =>
    -- a lock that a caller has is waited for
    if s.owner (calls i).lock = none then
      ({ s with owner := Function.update s.owner (calls i).lock (some i) }, .inside (calls i).body)
    else (s, .called)
  | .inside (.work change next) => ({ s with state := change s.state }, .inside (next s.state))
  | .inside (.done result) =>
    ({ s with owner := Function.update s.owner (calls i).lock none }, .left result)
  | .left result => (s, .returned ((calls i).after s.state result))
  | .returned result => (s, .returned result)

/-- Nobody has begun yet, and all locks are free. -/
def start (state : σ) : State ι (Shared ι κ σ) (Phase σ ρ) :=
  ⟨⟨fun _ => none, state⟩, fun _ => .called⟩

variable {calls : ι → Call κ σ ρ}

theorem turn_called_of_free {i : ι} {s : Shared ι κ σ} (h : s.owner (calls i).lock = none) :
    turn calls i s .called =
      ({ s with owner := Function.update s.owner (calls i).lock (some i) },
        .inside (calls i).body) := if_pos h

theorem turn_called_of_taken {i : ι} {s : Shared ι κ σ} (h : s.owner (calls i).lock ≠ none) :
    turn calls i s .called = (s, .called) := if_neg h

theorem turn_obeys (i : ι) (s : Shared ι κ σ) (phase : Phase σ ρ) :
    Obeys s.owner (turn calls i s phase).1.owner i (calls i).lock phase.Inside
      (turn calls i s phase).2.Inside := by
  cases phase with
  | called =>
    by_cases hfree : s.owner (calls i).lock = none
    · rw [turn_called_of_free hfree]
      exact .takes hfree id trivial rfl
    · rw [turn_called_of_taken hfree]
      exact .keeps rfl Iff.rfl
  | inside rest =>
    cases rest with
    | done result => exact .gives trivial id rfl
    | work change next => exact .keeps rfl Iff.rfl
  | left result => exact .keeps rfl Iff.rfl
  | returned result => exact .keeps rfl Iff.rfl

theorem returned_of_turn {i : ι} {s : Shared ι κ σ} {phase : Phase σ ρ} {ret : ρ}
    (h : (turn calls i s phase).2 = .returned ret) :
    phase = .returned ret ∨
      ∃ result, phase = .left result ∧ ret = (calls i).after s.state result := by
  cases phase with
  | called =>
    by_cases hfree : s.owner (calls i).lock = none
    · rw [turn_called_of_free hfree] at h
      cases h
    · rw [turn_called_of_taken hfree] at h
      cases h
  | inside rest =>
    cases rest with
    | done result => cases h
    | work change next => cases h
  | left result =>
    cases h
    exact Or.inr ⟨result, rfl, rfl⟩
  | returned result => exact Or.inl h

/-- The callers inside are the owners of their locks. -/
def LocksOwned (calls : ι → Call κ σ ρ) (s : State ι (Shared ι κ σ) (Phase σ ρ)) : Prop :=
  Owned (fun shared : Shared ι κ σ => shared.owner) (fun i => (calls i).lock) Phase.Inside s

omit [DecidableEq κ] in
theorem locksOwned_start (state : σ) : LocksOwned calls (start state) :=
  fun _ => iff_of_false id nofun

theorem LocksOwned.step [DecidableEq ι] {s : State ι (Shared ι κ σ) (Phase σ ρ)}
    (h : LocksOwned calls s) (k : ι) : LocksOwned calls (step (turn calls) s k) :=
  Owned.step h (turn_obeys k s.shared (s.callers k))

/-! ## The order in which locks are given back -/

/-- What a turn puts into the log: the caller and its result, when it gives its lock back. -/
def logged (i : ι) : Phase σ ρ → List (ι × ρ)
  | .inside (.done result) => [(i, result)]
  | .inside (.work _ _) | .called | .left _ | .returned _ => []

/-- The callers in the order in which they gave their locks back, with their results. -/
def log [DecidableEq ι] (calls : ι → Call κ σ ρ) :
    State ι (Shared ι κ σ) (Phase σ ρ) → List ι → List (ι × ρ)
  | _, [] => []
  | s, k :: schedule => logged k (s.callers k) ++ log calls (step (turn calls) s k) schedule

/-- A longer schedule adds to the log. -/
theorem log_append [DecidableEq ι] (s : State ι (Shared ι κ σ) (Phase σ ρ))
    (schedule schedule' : List ι) :
    log calls s (schedule ++ schedule') =
      log calls s schedule ++ log calls (run (turn calls) s schedule) schedule' := by
  induction schedule generalizing s with
  | nil => rfl
  | cons k schedule ih =>
    rw [List.cons_append, log, log, ih, List.append_assoc]
    rfl

end Turns

/-- The bodies run whole, one after the other. -/
def inTurn (calls : ι → Call κ σ ρ) : List ι → σ → List (ι × ρ) × σ
  | [], s => ([], s)
  | i :: order, s =>
    let (result, s) := (calls i).body.run s
    let (results, s) := inTurn calls order s
    ((i, result) :: results, s)

theorem inTurn_append (calls : ι → Call κ σ ρ) (order order' : List ι) (s : σ) :
    inTurn calls (order ++ order') s =
      ((inTurn calls order s).1 ++ (inTurn calls order' (inTurn calls order s).2).1,
        (inTurn calls order' (inTurn calls order s).2).2) := by
  induction order generalizing s with
  | nil => rfl
  | cons i order ih => simp only [List.cons_append, inTurn, ih]

/-- What the log says of a caller. -/
def Accounts (call : Call κ σ ρ) (log : List (ι × ρ)) (i : ι) : Phase σ ρ → Prop
  | .called | .inside _ => i ∉ log.map Prod.fst
  | .left result => (i, result) ∈ log
  | .returned ret => ∃ result state, (i, result) ∈ log ∧ ret = call.after state result

/-- **Callers that come one after the other.** The log is what the bodies give when they are run
whole in its order; between calls the state is the one they leave, and a caller that is inside will
leave, if nobody disturbs it, what its body run whole leaves. -/
structure Serial (calls : ι → Call κ σ ρ) (start : σ) (s : State ι (Shared ι κ σ) (Phase σ ρ))
    (log : List (ι × ρ)) : Prop where
  once : (log.map Prod.fst).Nodup
  results : (inTurn calls (log.map Prod.fst) start).1 = log
  settled : (∀ i, ¬ (s.callers i).Inside) →
    s.shared.state = (inTurn calls (log.map Prod.fst) start).2
  underway : ∀ i rest, s.callers i = .inside rest →
    rest.run s.shared.state = (calls i).body.run (inTurn calls (log.map Prod.fst) start).2
  accounts : ∀ i, Accounts (calls i) log i (s.callers i)

namespace Serial

variable {calls : ι → Call κ σ ρ} {state : σ} {s : State ι (Shared ι κ σ) (Phase σ ρ)}
  {l : List (ι × ρ)}

theorem initial (calls : ι → Call κ σ ρ) (state : σ) : Serial calls state (start state) [] where
  once := List.nodup_nil
  results := rfl
  settled _ := rfl
  underway _ _ h := nomatch h
  accounts _ := List.not_mem_nil

/-- A turn that leaves alone the state, the log and what is still to be done inside. -/
theorem of_same (h : Serial calls state s l) {s' : State ι (Shared ι κ σ) (Phase σ ρ)}
    (hstate : s'.shared.state = s.shared.state)
    (hinside : ∀ i rest, s'.callers i = .inside rest ↔ s.callers i = .inside rest)
    (haccounts : ∀ i, Accounts (calls i) l i (s'.callers i)) : Serial calls state s' l where
  once := h.once
  results := h.results
  settled hsettled := by
    rw [hstate]
    refine h.settled fun i hi => ?_
    obtain ⟨rest, hrest⟩ := Phase.inside_iff.mp hi
    exact hsettled i (Phase.inside_iff.mpr ⟨rest, (hinside i rest).mpr hrest⟩)
  underway i rest hrest := by
    rw [hstate]
    exact h.underway i rest ((hinside i rest).mp hrest)
  accounts := haccounts

/-- The log has just the callers that gave their locks back. -/
theorem over_iff (h : Serial calls state s l) (i : ι) :
    (s.callers i).Over ↔ i ∈ l.map Prod.fst := by
  have hacc := h.accounts i
  cases hphase : s.callers i with
  | called =>
    rw [hphase] at hacc
    exact iff_of_false id hacc
  | inside rest =>
    rw [hphase] at hacc
    exact iff_of_false id hacc
  | left result =>
    rw [hphase] at hacc
    exact iff_of_true trivial (List.mem_map_of_mem hacc)
  | returned ret =>
    rw [hphase] at hacc
    obtain ⟨result, t, hmem, -⟩ := hacc
    exact iff_of_true trivial (List.mem_map_of_mem hmem)

end Serial

/-- The state after a caller has taken its turn. -/
def moved [DecidableEq ι] (s : State ι (Shared ι κ σ) (Phase σ ρ)) (k : ι) (shared : Shared ι κ σ)
    (phase : Phase σ ρ) : State ι (Shared ι κ σ) (Phase σ ρ) :=
  ⟨shared, Function.update s.callers k phase⟩

section Moved

variable [DecidableEq ι] (s : State ι (Shared ι κ σ) (Phase σ ρ)) (k : ι) (shared : Shared ι κ σ)
  (phase : Phase σ ρ)

@[simp] theorem moved_shared : (moved s k shared phase).shared = shared := rfl

@[simp] theorem moved_self : (moved s k shared phase).callers k = phase :=
  Function.update_self _ _ _

variable {k}

theorem moved_of_ne {i : ι} (h : i ≠ k) : (moved s k shared phase).callers i = s.callers i :=
  Function.update_of_ne h _ _

end Moved

/-- What a log says of a caller it still says when another caller is added. -/
theorem Accounts.append {call : Call κ σ ρ} {l : List (ι × ρ)} {i k : ι} {phase : Phase σ ρ}
    {result : ρ} (h : Accounts call l i phase) (hik : i ≠ k) :
    Accounts call (l ++ [(k, result)]) i phase := by
  have hnot : i ∉ l.map Prod.fst → i ∉ (l ++ [(k, result)]).map Prod.fst := by
    intro hold hmem
    rw [List.map_append, List.mem_append] at hmem
    rcases hmem with hmem | hmem
    · exact hold hmem
    · exact hik (List.mem_singleton.mp hmem)
  cases phase with
  | called => exact hnot h
  | inside rest => exact hnot h
  | left result => exact List.mem_append_left _ h
  | returned ret =>
    obtain ⟨result, t, hmem, hret⟩ := h
    exact ⟨result, t, List.mem_append_left _ hmem, hret⟩

/-- A call that has returned did so at one of the turns, with the result it left its lock with, as it
saw that result in the state there was at that turn. -/
theorem returned_at [DecidableEq ι] [DecidableEq κ] {calls : ι → Call κ σ ρ} {state : σ}
    {schedule : List ι} {i : ι} {ret : ρ}
    (h : (run (turn calls) (start state) schedule).callers i = .returned ret) :
    ∃ first rest result, schedule = first ++ i :: rest ∧
      (run (turn calls) (start state) first).callers i = .left result ∧
      ret = (calls i).after (run (turn calls) (start state) first).shared.state result := by
  induction schedule using List.reverseRecOn with
  | nil => cases h
  | append_singleton schedule k ih =>
    have hstep : run (turn calls) (start state) (schedule ++ [k]) =
        Interleaving.step (turn calls) (run (turn calls) (start state) schedule) k :=
      List.foldl_append
    have hearlier : (run (turn calls) (start state) schedule).callers i = .returned ret →
        ∃ first rest result, schedule ++ [k] = first ++ i :: rest ∧
          (run (turn calls) (start state) first).callers i = .left result ∧
          ret = (calls i).after (run (turn calls) (start state) first).shared.state result := by
      intro hbefore
      obtain ⟨first, rest, result, hschedule, hleft, hret⟩ := ih hbefore
      refine ⟨first, rest ++ [k], result, ?_, hleft, hret⟩
      rw [hschedule, List.append_assoc, List.cons_append]
    rw [hstep] at h
    by_cases hik : i = k
    · subst hik
      rw [Interleaving.step] at h
      dsimp only at h
      rw [Function.update_self] at h
      rcases returned_of_turn h with hphase | ⟨result, hphase, hret⟩
      · exact hearlier hphase
      · exact ⟨schedule, [], result, rfl, hphase, hret⟩
    · refine hearlier ?_
      rw [← h]
      exact (@Function.update_of_ne ι (fun _ => Phase σ ρ) _ i k hik _ _).symm

section Steps

variable [DecidableEq κ] {calls : ι → Call κ σ ρ} {state : σ}
  {s : State ι (Shared ι κ σ) (Phase σ ρ)} {l : List (ι × ρ)} {k : ι}

omit [DecidableEq κ] in
/-- Callers with one lock: while one is inside no other is. -/
theorem LocksOwned.alone (h : LocksOwned calls s) (hone : ∀ i j, (calls i).lock = (calls j).lock)
    {i j : ι} (hi : (s.callers i).Inside) (hj : (s.callers j).Inside) : i = j :=
  Owned.eq h hi hj (hone i j)

omit [DecidableEq κ] in
/-- A lock that is free is had by nobody. -/
theorem LocksOwned.nobody (h : LocksOwned calls s) (hone : ∀ i j, (calls i).lock = (calls j).lock)
    (hfree : s.shared.owner (calls k).lock = none) (i : ι) : ¬ (s.callers i).Inside := by
  intro hi
  have howner := (h i).mp hi
  dsimp only at howner
  rw [hone i k, hfree] at howner
  cases howner

variable [DecidableEq ι]

theorem step_eq (s : State ι (Shared ι κ σ) (Phase σ ρ)) (k : ι) :
    step (turn calls) s k =
      moved s k (turn calls k s.shared (s.callers k)).1 (turn calls k s.shared (s.callers k)).2 := rfl

/-- A turn that changes nothing. -/
theorem step_idle (h : turn calls k s.shared (s.callers k) = (s.shared, s.callers k)) :
    step (turn calls) s k = s := by
  rw [step, h, Function.update_eq_self]

omit [DecidableEq κ] in
/-- What the log says of the callers when one of them goes on without giving its lock back. -/
theorem accounts_moved (h : Serial calls state s l) {shared : Shared ι κ σ} {phase : Phase σ ρ}
    (hphase : Accounts (calls k) l k phase) (i : ι) :
    Accounts (calls i) l i ((moved s k shared phase).callers i) := by
  by_cases hik : i = k
  · subst hik
    rw [moved_self]
    exact hphase
  · rw [moved_of_ne s shared phase hik]
    exact h.accounts i

/-- A caller takes the lock. -/
theorem Serial.step_taking (howned : LocksOwned calls s)
    (hone : ∀ i j, (calls i).lock = (calls j).lock) (h : Serial calls state s l)
    (hphase : s.callers k = .called) (hfree : s.shared.owner (calls k).lock = none) :
    Serial calls state (step (turn calls) s k) l := by
  have hnobody := howned.nobody hone hfree
  have hacc := h.accounts k
  rw [hphase] at hacc
  rw [step_eq, hphase, turn_called_of_free hfree]
  refine ⟨h.once, h.results, fun hsettled => ?_, fun i rest hrest => ?_, accounts_moved h hacc⟩
  · have hk := hsettled k
    rw [moved_self] at hk
    exact absurd trivial hk
  · by_cases hik : i = k
    · subst hik
      rw [moved_self] at hrest
      cases hrest
      exact congrArg (calls i).body.run (h.settled hnobody)
    · rw [moved_of_ne _ _ _ hik] at hrest
      refine absurd ?_ (hnobody i)
      rw [hrest]
      trivial

/-- The caller inside does a piece of its work. -/
theorem Serial.step_working (howned : LocksOwned calls s)
    (hone : ∀ i j, (calls i).lock = (calls j).lock) (h : Serial calls state s l)
    {change : σ → σ} {next : σ → Program σ ρ} (hphase : s.callers k = .inside (.work change next)) :
    Serial calls state (step (turn calls) s k) l := by
  have hk : (s.callers k).Inside := by
    rw [hphase]
    trivial
  have hacc := h.accounts k
  rw [hphase] at hacc
  rw [step_eq, hphase]
  refine ⟨h.once, h.results, fun hsettled => ?_, fun i rest hrest => ?_, accounts_moved h hacc⟩
  · have hk := hsettled k
    rw [moved_self] at hk
    exact absurd trivial hk
  · by_cases hik : i = k
    · subst hik
      rw [moved_self] at hrest
      cases hrest
      exact h.underway i _ hphase
    · rw [moved_of_ne _ _ _ hik] at hrest
      refine absurd (howned.alone hone ?_ hk) hik
      rw [hrest]
      trivial

/-- The caller inside gives the lock back. -/
theorem Serial.step_leaving (howned : LocksOwned calls s)
    (hone : ∀ i j, (calls i).lock = (calls j).lock) (h : Serial calls state s l)
    {result : ρ} (hphase : s.callers k = .inside (.done result)) :
    Serial calls state (step (turn calls) s k) (l ++ [(k, result)]) := by
  have hk : (s.callers k).Inside := by
    rw [hphase]
    trivial
  -- the body run whole on the state it found is what the caller has done
  have hbody : (calls k).body.run (inTurn calls (l.map Prod.fst) state).2 =
      (result, s.shared.state) := (h.underway k _ hphase).symm
  have hturns : inTurn calls ((l ++ [(k, result)]).map Prod.fst) state =
      (l ++ [(k, result)], s.shared.state) := by
    rw [List.map_append, inTurn_append, h.results]
    simp only [List.map_cons, List.map_nil, inTurn, hbody]
  have hacc := h.accounts k
  rw [hphase] at hacc
  rw [step_eq, hphase]
  refine ⟨?_, by rw [hturns], fun _ => by rw [hturns]; rfl, fun i rest hrest => ?_, fun i => ?_⟩
  · rw [List.map_append]
    refine List.Nodup.append h.once (List.nodup_singleton k) ?_
    rw [List.map_singleton, List.disjoint_singleton]
    exact hacc
  · by_cases hik : i = k
    · subst hik
      rw [moved_self] at hrest
      cases hrest
    · rw [moved_of_ne _ _ _ hik] at hrest
      refine absurd (howned.alone hone ?_ hk) hik
      rw [hrest]
      trivial
  · by_cases hik : i = k
    · subst hik
      rw [moved_self]
      exact List.mem_append_right _ (List.mem_singleton_self _)
    · rw [moved_of_ne _ _ _ hik]
      exact (h.accounts i).append hik

/-- The call returns. -/
theorem Serial.step_returning (h : Serial calls state s l) {result : ρ}
    (hphase : s.callers k = .left result) : Serial calls state (step (turn calls) s k) l := by
  have hacc := h.accounts k
  rw [hphase] at hacc
  rw [step_eq, hphase]
  refine h.of_same rfl (fun i rest => ?_) (accounts_moved h ⟨result, s.shared.state, hacc, rfl⟩)
  by_cases hik : i = k
  · subst hik
    rw [moved_self, hphase]
    exact iff_of_false nofun nofun
  · rw [moved_of_ne _ _ _ hik]

/-- One turn, whoever takes it. -/
theorem Serial.step (howned : LocksOwned calls s)
    (hone : ∀ i j, (calls i).lock = (calls j).lock) (h : Serial calls state s l) (k : ι) :
    Serial calls state (step (turn calls) s k) (l ++ logged k (s.callers k)) := by
  cases hphase : s.callers k with
  | called =>
    rw [logged, List.append_nil]
    by_cases hfree : s.shared.owner (calls k).lock = none
    · exact h.step_taking howned hone hphase hfree
    · rw [step_idle (by rw [hphase, turn_called_of_taken hfree])]
      exact h
  | inside rest =>
    cases rest with
    | done result => exact h.step_leaving howned hone hphase
    | work change next =>
      rw [logged, List.append_nil]
      exact h.step_working howned hone hphase
  | left result =>
    rw [logged, List.append_nil]
    exact h.step_returning hphase
  | returned result =>
    rw [logged, List.append_nil, step_idle (by rw [hphase]; rfl)]
    exact h

/-- **Every interleaving of callers with one lock is serial**: they come one after the other, in the
order in which they give the lock back. -/
theorem serial_run (hone : ∀ i j, (calls i).lock = (calls j).lock) (state : σ)
    (schedule : List ι) :
    Serial calls state (run (turn calls) (start state) schedule)
      (log calls (start state) schedule) := by
  have hall : ∀ (schedule : List ι) (s : State ι (Shared ι κ σ) (Phase σ ρ)) (l : List (ι × ρ)),
      LocksOwned calls s → Serial calls state s l →
        Serial calls state (run (turn calls) s schedule) (l ++ log calls s schedule) := by
    intro schedule
    induction schedule with
    | nil =>
      intro s l _ h
      rw [log, List.append_nil]
      exact h
    | cons k schedule ih =>
      intro s l howned h
      rw [log, ← List.append_assoc]
      exact ih _ _ (howned.step k) (h.step howned hone k)
  exact hall schedule _ [] (locksOwned_start state) (Serial.initial calls state)

/-- A call that gave its lock back before another began comes before it in the log. -/
theorem log_precedes (hone : ∀ i j, (calls i).lock = (calls j).lock) (state : σ)
    (schedule schedule' : List ι) {i j : ι}
    (hi : ((run (turn calls) (start state) schedule).callers i).Over)
    (hj : (run (turn calls) (start state) schedule).callers j = .called) :
    ((log calls (start state) (schedule ++ schedule')).map Prod.fst).idxOf i <
      ((log calls (start state) (schedule ++ schedule')).map Prod.fst).idxOf j := by
  have hserial := serial_run hone state schedule
  have hmem : i ∈ (log calls (start state) schedule).map Prod.fst := (hserial.over_iff i).mp hi
  have hnot : j ∉ (log calls (start state) schedule).map Prod.fst := by
    rw [← hserial.over_iff j, hj]
    exact id
  rw [log_append, List.map_append, List.idxOf_append_of_mem hmem, List.idxOf_append_of_notMem hnot]
  exact Nat.lt_add_right _ (List.idxOf_lt_length_of_mem hmem)

end Steps

end Lib.Monitor
