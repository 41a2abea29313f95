import Mathlib.Logic.Function.Basic

/-!
# Values that are made when they are first asked for

A component makes a value for each key from an environment, when the key is asked for, and keeps the
value; the environment changes meanwhile. So what it answers for a key was made from the environment
of the time when the key was asked for first (`run_stamp_of_first`), and from that of the present
only where it was not asked for before (`run_stamp_of_unasked`).

`Stamps` says this without the values: it keeps the environment that each key's value was made from.
A component is one of these where its steps are `step` of what they do (`Event`).
-/

namespace Lib.FirstAsk

variable {σ κ : Type} [DecidableEq κ]

/-- The environment, and for each key that was asked for the one its value was made from. -/
structure Stamps (σ κ : Type) where
  env : σ
  stamp : κ → Option σ

/-- The environment that the value of a key is made from, or was. -/
def Stamps.seen (s : Stamps σ κ) (key : κ) : σ := (s.stamp key).getD s.env

/-- What happens to a component. -/
inductive Event (σ κ : Type) where
  | change (f : σ → σ)
  | ask (key : κ)

def step (s : Stamps σ κ) : Event σ κ → Stamps σ κ
  | .change f => { s with env := f s.env }
  | .ask key => { s with stamp := Function.update s.stamp key (some (s.seen key)) }

def run (s : Stamps σ κ) (events : List (Event σ κ)) : Stamps σ κ := events.foldl step s

omit [DecidableEq κ] in
theorem seen_of_stamp {s : Stamps σ κ} {key : κ} {env : σ} (h : s.stamp key = some env) :
    s.seen key = env := by
  rw [Stamps.seen, h, Option.getD_some]

omit [DecidableEq κ] in
theorem seen_of_no_stamp {s : Stamps σ κ} {key : κ} (h : s.stamp key = none) :
    s.seen key = s.env := by
  rw [Stamps.seen, h, Option.getD_none]

theorem step_stamp_ask (s : Stamps σ κ) (key : κ) :
    (step s (.ask key)).stamp key = some (s.seen key) := Function.update_self _ _ _

theorem step_stamp_of_ne (s : Stamps σ κ) {key other : κ} (h : key ≠ other) :
    (step s (.ask other)).stamp key = s.stamp key := Function.update_of_ne h _ _

/-- Asking again makes nothing. -/
theorem step_ask_of_stamp {s : Stamps σ κ} {key : κ} {env : σ} (h : s.stamp key = some env) :
    step s (.ask key) = s := by
  rw [step, seen_of_stamp h, ← h, Function.update_eq_self]

/-- What a key's value was made from stays. -/
theorem step_stamp_of_some {s : Stamps σ κ} {key : κ} {env : σ} (h : s.stamp key = some env)
    (event : Event σ κ) : (step s event).stamp key = some env := by
  cases event with
  | change f => exact h
  | ask other =>
    by_cases hkey : key = other
    · rw [← hkey, step_stamp_ask, seen_of_stamp h]
    · rw [step_stamp_of_ne s hkey, h]

/-- Only asking for a key makes its value. -/
theorem step_stamp_of_unasked {s : Stamps σ κ} {key : κ} {event : Event σ κ}
    (h : event ≠ .ask key) : (step s event).stamp key = s.stamp key := by
  cases event with
  | change f => rfl
  | ask other => exact step_stamp_of_ne s fun heq => h (congrArg Event.ask heq.symm)

theorem run_stamp_of_some {s : Stamps σ κ} {key : κ} {env : σ} (h : s.stamp key = some env)
    (events : List (Event σ κ)) : (run s events).stamp key = some env := by
  induction events generalizing s with
  | nil => exact h
  | cons event events ih => exact ih (step_stamp_of_some h event)

theorem run_stamp_of_unasked {s : Stamps σ κ} {key : κ} {events : List (Event σ κ)}
    (h : .ask key ∉ events) : (run s events).stamp key = s.stamp key := by
  induction events generalizing s with
  | nil => rfl
  | cons event events ih =>
    rw [List.mem_cons, not_or] at h
    exact (ih h.2).trans (step_stamp_of_unasked (Ne.symm h.1))

/-- **What is answered is from the time of the first asking.** -/
theorem run_stamp_of_first {s : Stamps σ κ} {key : κ} (hnone : s.stamp key = none)
    {before : List (Event σ κ)} (hbefore : .ask key ∉ before) (after : List (Event σ κ)) :
    (run s (before ++ .ask key :: after)).stamp key = some (run s before).env := by
  have hunasked : (run s before).stamp key = none := by
    rw [run_stamp_of_unasked hbefore, hnone]
  have hfirst : (step (run s before) (.ask key)).stamp key = some (run s before).env := by
    rw [step_stamp_ask, seen_of_no_stamp hunasked]
  rw [run, List.foldl_append, List.foldl_cons]
  exact run_stamp_of_some hfirst after

end Lib.FirstAsk
