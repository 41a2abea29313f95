/-!
# Runs of a step function

A deterministic component is a state, the calls a client can make, and a step function. A **run** is
the list of calls made, and a property of runs is one of every step: `Always P` holds of a run when
each of its calls meets `P` at the state it is made in.

Two rules carry every use of this module. `always_of_invariant` is the safety rule: an invariant of
the start, kept by each step that meets a condition, brings a property along the whole run.
`always_iff` is its exact form: where, under the invariant, a step has the property exactly when it
meets the condition, a run has the property throughout exactly when its steps all meet the
condition. The second rule is what makes a condition the WHOLE condition: a run that breaks it once
breaks the property at that step.
-/

namespace Lib.Run

variable {σ α : Type}

/-- Every call of the run meets `P` at the state in which it is made. -/
def Always (step : σ → α → σ) (P : σ → α → Prop) : σ → List α → Prop
  | _, [] => True
  | s, a :: as => P s a ∧ Always step P (step s a) as

theorem always_cons {step : σ → α → σ} {P : σ → α → Prop} {s : σ} {a : α} {as : List α} :
    Always step P s (a :: as) ↔ P s a ∧ Always step P (step s a) as := Iff.rfl

/-- What holds of the calls of a run at every state holds along it. -/
theorem always_of_mem {step : σ → α → σ} {P : σ → α → Prop} {s : σ} {as : List α}
    (h : ∀ s, ∀ a ∈ as, P s a) : Always step P s as := by
  induction as generalizing s with
  | nil => trivial
  | cons a as ih =>
    exact ⟨h s a List.mem_cons_self, ih fun s b hb => h s b (List.mem_cons_of_mem _ hb)⟩

/-- A property of the calls alone holds along a run exactly when it holds of its calls. -/
theorem always_iff_forall_mem {step : σ → α → σ} {C : α → Prop} {s : σ} {as : List α} :
    Always step (fun _ a => C a) s as ↔ ∀ a ∈ as, C a := by
  induction as generalizing s with
  | nil => exact iff_of_true trivial fun a ha => absurd ha List.not_mem_nil
  | cons a as ih => rw [always_cons, ih, List.forall_mem_cons]

/-- Two properties hold along a run when each of them does. -/
theorem always_and {step : σ → α → σ} {P Q : σ → α → Prop} {s : σ} {as : List α} :
    Always step (fun s a => P s a ∧ Q s a) s as ↔ Always step P s as ∧ Always step Q s as := by
  induction as generalizing s with
  | nil => exact (and_self_iff).symm
  | cons a as ih =>
    rw [always_cons, always_cons, always_cons, ih]
    exact and_and_and_comm

/-- **The safety rule.** An invariant that every conditioned step keeps, and under which every
conditioned step has the property, brings the property along the run. -/
theorem always_of_invariant {step : σ → α → σ} {C P : σ → α → Prop} {Inv : σ → Prop}
    (keeps : ∀ s a, Inv s → C s a → Inv (step s a)) (holds : ∀ s a, Inv s → C s a → P s a)
    {s : σ} {as : List α} (start : Inv s) (run : Always step C s as) : Always step P s as := by
  induction as generalizing s with
  | nil => trivial
  | cons a as ih => exact ⟨holds s a start run.1, ih (keeps s a start run.1) run.2⟩

/-- **The exact rule.** Where, under the invariant, a step has the property exactly when it meets
the condition, a run has the property throughout exactly when all its steps meet the condition. The
invariant need only survive the steps that meet it: the first step that does not already breaks the
property. -/
theorem always_iff {step : σ → α → σ} {C P : σ → α → Prop} {Inv : σ → Prop}
    (keeps : ∀ s a, Inv s → C s a → Inv (step s a)) (decides : ∀ s a, Inv s → (P s a ↔ C s a))
    {s : σ} {as : List α} (start : Inv s) : Always step P s as ↔ Always step C s as := by
  induction as generalizing s with
  | nil => exact Iff.rfl
  | cons a as ih =>
    rw [always_cons, always_cons, decides s a start]
    exact and_congr_right fun ok => ih (keeps s a start ok)

end Lib.Run
