import ObjCSword.Laws.Reading
import ObjCSword.ModuleAccess

/-!
# Callers of one engine module

A lock keeps apart the callers that have it, and no others. So what a caller reads is read at the
key of a caller that its lock does not exclude (`readsAt_run`): where all have one lock this is its
own, and each is returned what the method returns to a caller alone (`returned_of_one_lock`); where
two have different locks, one may move the module under the other (`overtaken`).
-/

namespace ObjCSword

open Sword Lib.Interleaving

variable {ι Key : Type}

namespace SwordModule

/-- The calls that have their lock. -/
def Inside : CallPhase → Prop
  | .called | .returned _ => False
  | .locked | .positioned | .checked | .read _ => True

/-- Nobody has begun yet, and all locks are free. -/
def start (m : ModuleState Key) : State ι (Shared ι Key) CallPhase :=
  ⟨⟨fun _ => none, m⟩, fun _ => .called⟩

variable {M : SWModule Key} {calls : ι → EntryCall}

/-- The key a caller puts the module on. -/
def keyFor (M : SWModule Key) (calls : ι → EntryCall) (i : ι) : Key :=
  keyOf M (calls i).aKeyString

/-! ## One turn -/

theorem turn_called (i : ι) (s : Shared ι Key) :
    turn M calls i s .called =
      if s.owner (calls i).moduleLock = none then
        ({ s with owner := Function.update s.owner (calls i).moduleLock (some i) }, .locked)
      else (s, .called) := rfl

theorem turn_locked (i : ι) (s : Shared ι Key) :
    turn M calls i s .locked =
      ({ s with m := { s.m with key := keyFor M calls i, error := M.error (keyFor M calls i) } },
        .positioned) := rfl

theorem turn_positioned (i : ι) (s : Shared ι Key) :
    turn M calls i s .positioned =
      ({ s with m := { s.m with error := false } },
        if s.m.error then .read none else .checked) := rfl

theorem turn_checked (i : ι) (s : Shared ι Key) :
    turn M calls i s .checked =
      ({ s with m := { s.m with entryAttributes := M.entryAttributes s.m.key } },
        .read ((textAt M (calls i).aType s.m.key).map fun txt =>
          { key := (calls i).aKeyString, text := txt })) := by
  unfold turn textAt
  cases (calls i).aType with
  | rendered => rfl
  | stripped => rfl

theorem turn_read (i : ι) (s : Shared ι Key) (ret : Option SwordModuleTextEntry) :
    turn M calls i s (.read ret) =
      ({ s with owner := Function.update s.owner (calls i).moduleLock none }, .returned ret) := rfl

theorem turn_obeys (i : ι) (s : Shared ι Key) (phase : CallPhase) :
    Obeys s.owner (turn M calls i s phase).1.owner i (calls i).moduleLock (Inside phase)
      (Inside (turn M calls i s phase).2) := by
  cases phase with
  | called =>
    rw [turn_called]
    by_cases hfree : s.owner (calls i).moduleLock = none
    · rw [if_pos hfree]
      exact .takes hfree id trivial rfl
    · rw [if_neg hfree]
      exact .keeps rfl Iff.rfl
  | locked => exact .keeps rfl Iff.rfl
  | positioned =>
    rw [turn_positioned]
    cases s.m.error with
    | true => exact .keeps rfl Iff.rfl
    | false => exact .keeps rfl Iff.rfl
  | checked =>
    rw [turn_checked]
    exact .keeps rfl Iff.rfl
  | read ret => exact .gives trivial id rfl
  | returned ret => exact .keeps rfl Iff.rfl

/-- The module is moved by a caller that has just taken its lock, and by no other. -/
theorem turn_key (i : ι) (s : Shared ι Key) {phase : CallPhase} (h : phase ≠ .locked) :
    (turn M calls i s phase).1.m.key = s.m.key := by
  cases phase with
  | called =>
    rw [turn_called]
    split
    · rfl
    · rfl
  | locked => exact absurd rfl h
  | positioned => rfl
  | checked => rw [turn_checked]
  | read ret => rfl
  | returned ret => rfl

/-- A caller that is not inside leaves the module alone. -/
theorem turn_m_of_not_inside (i : ι) (s : Shared ι Key) {phase : CallPhase} (h : ¬ Inside phase) :
    (turn M calls i s phase).1.m = s.m := by
  cases phase with
  | called =>
    rw [turn_called]
    split
    · rfl
    · rfl
  | locked => exact absurd trivial h
  | positioned => exact absurd trivial h
  | checked => exact absurd trivial h
  | read ret => exact absurd trivial h
  | returned ret => rfl

/-! ## The locks -/

def LocksOwned (calls : ι → EntryCall) (s : State ι (Shared ι Key) CallPhase) : Prop :=
  Owned (fun shared : Shared ι Key => shared.owner) (fun i => (calls i).moduleLock) Inside s

theorem locksOwned_start (m : ModuleState Key) : LocksOwned calls (start m) :=
  fun _ => iff_of_false id nofun

theorem LocksOwned.step [DecidableEq ι] {s : State ι (Shared ι Key) CallPhase}
    (h : LocksOwned calls s) (k : ι) : LocksOwned calls (step (turn M calls) s k) :=
  Owned.step h (turn_obeys k s.shared (s.callers k))

/-! ## Callers with locks of their own -/

/-- The callers that the lock of `i` does not keep away from it. -/
def NotExcluded (calls : ι → EntryCall) (i j : ι) : Prop :=
  j = i ∨ (calls j).moduleLock ≠ (calls i).moduleLock

/-- A caller that is reading reads at the key of one that its lock does not exclude, and so do the
entries that were read. -/
def ReadsAt (M : SWModule Key) (calls : ι → EntryCall) (i : ι) (shared : Shared ι Key) :
    CallPhase → Prop
  | .called | .locked => True
  | .positioned | .checked => ∃ j, NotExcluded calls i j ∧ shared.m.key = keyFor M calls j
  | .read ret | .returned ret => ∀ entry ∈ ret, entry.key = (calls i).aKeyString ∧
      ∃ j, NotExcluded calls i j ∧ textAt M (calls i).aType (keyFor M calls j) = some entry.text

theorem readsAt_own {i : ι} {s : Shared ι Key} {phase : CallPhase} (h : ReadsAt M calls i s phase) :
    ReadsAt M calls i (turn M calls i s phase).1 (turn M calls i s phase).2 := by
  cases phase with
  | called =>
    rw [turn_called]
    split
    · trivial
    · trivial
  | locked => exact ⟨i, Or.inl rfl, rfl⟩
  | positioned =>
    rw [turn_positioned]
    cases s.m.error with
    | true => exact nofun
    | false => exact h
  | checked =>
    obtain ⟨j, hj, hkey⟩ := h
    rw [turn_checked, hkey]
    intro entry hentry
    obtain ⟨txt, htxt, rfl⟩ := Option.map_eq_some_iff.mp hentry
    exact ⟨rfl, j, hj, htxt⟩
  | read ret => exact h
  | returned ret => exact h

theorem readsAt_other {s : State ι (Shared ι Key) CallPhase} (howned : LocksOwned calls s)
    {i k : ι} (hne : i ≠ k) (h : ReadsAt M calls i s.shared (s.callers i)) :
    ReadsAt M calls i (turn M calls k s.shared (s.callers k)).1 (s.callers i) := by
  -- only the key matters, and a caller that sets it has another lock than one that is inside
  have hkey : Inside (s.callers i) →
      (∃ j, NotExcluded calls i j ∧ s.shared.m.key = keyFor M calls j) →
      ∃ j, NotExcluded calls i j ∧
        (turn M calls k s.shared (s.callers k)).1.m.key = keyFor M calls j := by
    intro hinside hold
    by_cases hlocked : s.callers k = .locked
    · refine ⟨k, Or.inr fun hlock => hne ?_, ?_⟩
      · exact howned.eq hinside (by rw [hlocked]; trivial) hlock.symm
      · rw [hlocked, turn_locked]
    · rw [turn_key k s.shared hlocked]
      exact hold
  cases hphase : s.callers i with
  | called => trivial
  | locked => trivial
  | positioned =>
    rw [hphase] at h hkey
    exact hkey trivial h
  | checked =>
    rw [hphase] at h hkey
    exact hkey trivial h
  | read ret =>
    rw [hphase] at h
    exact h
  | returned ret =>
    rw [hphase] at h
    exact h

/-- **Whose text is returned.** An entry has the reference it was asked for, and the text at the
reference of a caller that the lock does not exclude. -/
theorem readsAt_run [DecidableEq ι] (M : SWModule Key) (calls : ι → EntryCall) (m : ModuleState Key)
    (schedule : List ι) (i : ι) :
    ReadsAt M calls i (run (turn M calls) (start m) schedule).shared
      ((run (turn M calls) (start m) schedule).callers i) := by
  let Inv (s : State ι (Shared ι Key) CallPhase) : Prop :=
    LocksOwned calls s ∧ ∀ i, ReadsAt M calls i s.shared (s.callers i)
  have hrun : Inv (run (turn M calls) (start m) schedule) := by
    refine run_invariant (fun s k h => ?_) ⟨locksOwned_start m, fun _ => trivial⟩ schedule
    exact ⟨h.1.step k,
      step_forall (ReadsAt M calls) (readsAt_own (h.2 k))
        fun i hne => readsAt_other h.1 hne (h.2 i)⟩
  exact hrun.2 i

/-! ## Callers with one lock -/

/-- The attributes are those of a caller's reference that can be read. -/
def Filled (M : SWModule Key) (calls : ι → EntryCall) (m : ModuleState Key) : Prop :=
  ∃ j, M.error (keyFor M calls j) = false ∧
    m.entryAttributes = M.entryAttributes (keyFor M calls j)

/-- A caller that is reading is alone with the module, and what was returned is what the method
returns to a caller that is alone. -/
def ReadsOwn (M : SWModule Key) (calls : ι → EntryCall) (i : ι) (shared : Shared ι Key) :
    CallPhase → Prop
  | .called | .locked => True
  | .positioned =>
    shared.m.key = keyFor M calls i ∧ shared.m.error = M.error (keyFor M calls i)
  | .checked => shared.m.key = keyFor M calls i ∧ M.error (keyFor M calls i) = false
  | .read ret | .returned ret => ret = entryAt M (calls i).aType (calls i).aKeyString ∧
      (ret ≠ none → Filled M calls shared.m)

theorem readsOwn_own {i : ι} {s : Shared ι Key} {phase : CallPhase}
    (h : ReadsOwn M calls i s phase) :
    ReadsOwn M calls i (turn M calls i s phase).1 (turn M calls i s phase).2 := by
  cases phase with
  | called =>
    rw [turn_called]
    split
    · trivial
    · trivial
  | locked => exact ⟨rfl, rfl⟩
  | positioned =>
    obtain ⟨hkey, herror⟩ := h
    rw [turn_positioned, herror]
    cases hread : M.error (keyFor M calls i) with
    | true =>
      exact ⟨(entryAt_of_error hread _).symm, absurd rfl⟩
    | false => exact ⟨hkey, hread⟩
  | checked =>
    obtain ⟨hkey, hread⟩ := h
    rw [turn_checked, hkey]
    exact ⟨(entryAt_of_readable hread _).symm, fun _ => ⟨i, hread, rfl⟩⟩
  | read ret => exact h
  | returned ret => exact h

/-- Only reading fills the attributes. -/
theorem turn_filled {k : ι} {s : Shared ι Key} {phase : CallPhase} (hk : ReadsOwn M calls k s phase)
    (h : Filled M calls s.m) : Filled M calls (turn M calls k s phase).1.m := by
  cases phase with
  | called =>
    rw [turn_called]
    split
    · exact h
    · exact h
  | locked => exact h
  | positioned => exact h
  | checked =>
    obtain ⟨hkey, hread⟩ := hk
    rw [turn_checked, hkey]
    exact ⟨k, hread, rfl⟩
  | read ret => exact h
  | returned ret => exact h

theorem readsOwn_other {s : State ι (Shared ι Key) CallPhase} (howned : LocksOwned calls s)
    (hone : ∀ i j, (calls i).moduleLock = (calls j).moduleLock) {i k : ι} (hne : i ≠ k)
    (hk : ReadsOwn M calls k s.shared (s.callers k))
    (h : ReadsOwn M calls i s.shared (s.callers i)) :
    ReadsOwn M calls i (turn M calls k s.shared (s.callers k)).1 (s.callers i) := by
  have hm : Inside (s.callers i) → (turn M calls k s.shared (s.callers k)).1.m = s.shared.m :=
    fun hinside => turn_m_of_not_inside k s.shared fun hother =>
      hne (howned.eq hinside hother (hone i k))
  cases hphase : s.callers i with
  | called => trivial
  | locked => trivial
  | positioned =>
    rw [hphase] at h hm
    rw [ReadsOwn, hm trivial]
    exact h
  | checked =>
    rw [hphase] at h hm
    rw [ReadsOwn, hm trivial]
    exact h
  | read ret =>
    rw [hphase] at h
    exact ⟨h.1, fun hsome => turn_filled hk (h.2 hsome)⟩
  | returned ret =>
    rw [hphase] at h
    exact ⟨h.1, fun hsome => turn_filled hk (h.2 hsome)⟩

/-- Callers that share an object, at any time: one of them at most is inside, and each of them reads
what is its own. -/
def OneAtATime (M : SWModule Key) (calls : ι → EntryCall) (s : State ι (Shared ι Key) CallPhase) :
    Prop :=
  LocksOwned calls s ∧ ∀ i, ReadsOwn M calls i s.shared (s.callers i)

theorem oneAtATime_start (m : ModuleState Key) : OneAtATime M calls (start m) :=
  ⟨locksOwned_start m, fun _ => trivial⟩

theorem OneAtATime.step [DecidableEq ι]
    (hone : ∀ i j, (calls i).moduleLock = (calls j).moduleLock)
    {s : State ι (Shared ι Key) CallPhase} (h : OneAtATime M calls s) (k : ι) :
    OneAtATime M calls (step (turn M calls) s k) :=
  ⟨h.1.step k, step_forall (ReadsOwn M calls) (readsOwn_own (h.2 k)) fun i hne =>
    readsOwn_other h.1 hone hne (h.2 k) (h.2 i)⟩

/-- **Callers that share an object** are returned what the method returns to each of them alone. -/
theorem returned_of_one_lock [DecidableEq ι]
    (hone : ∀ i j, (calls i).moduleLock = (calls j).moduleLock) (m : ModuleState Key)
    (schedule : List ι) {i : ι} {ret : Option SwordModuleTextEntry}
    (hreturned : (run (turn M calls) (start m) schedule).callers i = .returned ret) :
    ret = entryAt M (calls i).aType (calls i).aKeyString := by
  have hrun : OneAtATime M calls (run (turn M calls) (start m) schedule) :=
    run_invariant (fun _ k h => h.step hone k) (oneAtATime_start m) schedule
  have hreads := hrun.2 i
  rw [hreturned] at hreads
  exact hreads.1

/-! ## A caller alone -/

/-- Five turns are a call, and the lock is free again. -/
theorem run_alone [DecidableEq ι] (M : SWModule Key) (calls : ι → EntryCall)
    {s : State ι (Shared ι Key) CallPhase} {i : ι} (hcalled : s.callers i = .called)
    (hfree : s.shared.owner (calls i).moduleLock = none) :
    let out := textEntryForReference M (calls i).aKeyString (calls i).aType s.shared.m
    run (turn M calls) s (List.replicate 5 i) =
      ⟨{ s.shared with m := out.2 }, Function.update s.callers i (.returned out.1)⟩ := by
  have howner : Function.update (Function.update s.shared.owner (calls i).moduleLock (some i))
      (calls i).moduleLock none = s.shared.owner := by
    rw [Function.update_idem, ← hfree, Function.update_eq_self]
  rw [run_replicate, hcalled, textEntryForReference_eq]
  simp only [turns, turn_called, if_pos hfree, turn_locked, turn_positioned]
  cases hread : M.error (keyFor M calls i) with
  | true =>
    have hkey : M.error (keyOf M (calls i).aKeyString) = true := hread
    simp only [if_true, turn, howner, entryAt_of_error hkey, stateAfter, hkey, keyFor]
  | false =>
    have hkey : M.error (keyOf M (calls i).aKeyString) = false := hread
    simp only [Bool.false_eq_true, if_false, turn_checked]
    simp only [turn, howner, entryAt_of_readable hkey, stateAfter, hkey, keyFor,
      Bool.false_eq_true, if_false]

/-- A caller is returned the text of one with another lock that moved the module in between. -/
theorem overtaken [DecidableEq ι] (M : SWModule Key) {calls : ι → EntryCall} (m : ModuleState Key)
    {i j : ι}     (hlock : (calls j).moduleLock ≠ (calls i).moduleLock) :
    (run (turn M calls) (start m) [i, i, j, j, j, i, i, i]).callers i =
      .returned ((textAt M (calls i).aType (keyFor M calls j)).map fun txt =>
        { key := (calls i).aKeyString, text := txt }) := by
  have hne : i ≠ j := by
    rintro rfl
    exact hlock rfl
  simp only [run, List.foldl_cons, List.foldl_nil, step, start, Function.update_self,
    Function.update_of_ne hne, Function.update_of_ne hne.symm, Function.update_of_ne hlock,
    turn_called, turn_locked, turn_positioned, turn_checked, turn_read, if_true,
    Bool.false_eq_true, if_false]

end SwordModule

end ObjCSword
