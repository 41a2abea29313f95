import Mathlib.Data.List.Count
import ObjCSword.Laws.RetainedObjects

/-!
# What outlives what

After any calls of a client, an object with an engine object is there exactly while the client or
the default manager's variable holds it, or something the client holds retains it
(`WellKeptBut.alive_iff`). From this: which wrappers can be trusted to have their engine object
whatever is released (`engine_kept_iff`), what is never deallocated (`never_let_go_iff`), and when
the default manager is one that is gone (`default_alive_iff`).
-/

namespace ObjCSword.RetainedObjects

open Lib.RetainCount RetainedObject

variable {s s' s'' : RetainedObjects} {i j : Nat} {loose : Set Nat}

/-- Nobody retains a module or an enumerator, and these are all that retain objects with engine
objects. -/
theorem WellKeptBut.alive_iff (h : WellKeptBut loose s) {kind : RetainedObject}
    (hkind : s.heap.kind i = some kind) (hobject : kind.engineObject ≠ none) :
    s.Alive i ↔ i ∈ s.fixed ++ s.held ∨ ∃ j ∈ s.fixed ++ s.held, i ∈ s.heap.refs j := by
  constructor
  · intro halive
    refine ((h.sound.alive_iff i).mp halive).imp_right ?_
    rintro ⟨j, hij⟩
    have hj : s.Alive j := h.sound.alive_of_mem hij
    refine ⟨j, ((h.sound.alive_iff j).mp hj).resolve_right ?_, hij⟩
    rintro ⟨x, hjx⟩
    obtain ⟨kj, ki, hkj, hki, hretain⟩ := h.refs j i hij
    obtain ⟨kx, kj', -, hkj', hretain'⟩ := h.refs x j hjx
    rw [hkind] at hki
    rw [hkj] at hkj'
    cases hki
    cases hkj'
    cases hretain with
    | module => cases hretain'
    | verseEnumerator => cases hretain'
    | _ => exact hobject rfl
  · rintro (hi | ⟨j, -, hij⟩)
    · exact (h.sound.alive_iff i).mpr (Or.inl hi)
    · exact h.alive_of_mem hij

/-! ## What stays as it is -/

/-- What the object retains is not changed while it is there. -/
def Settled (s : RetainedObjects) (i : Nat) (kind : RetainedObject) : Prop :=
  kind.engineObject ≠ none ∨ kind ≠ .array ∧ s.heap.refs i ≠ []

/-- What is the same after some calls. -/
structure Later (s s' : RetainedObjects) : Prop where
  kind : ∀ i kind, s.heap.kind i = some kind → s'.heap.kind i = some kind
  next_le : s.next ≤ s'.next
  owner : ∀ o kind r, s'.heap.kind o = some kind → kind.deletes = some r → r < s.next →
    s.heap.kind o = some kind
  fixed : ∀ m ∈ s.fixed, m ∈ s'.fixed
  refs : ∀ i kind, s.heap.kind i = some kind → s.Settled i kind → s'.Alive i →
    s'.heap.refs i = s.heap.refs i
  alive : ∀ i kind, s.heap.kind i = some kind → s'.Alive i → s.Alive i

theorem Later.refl (s : RetainedObjects) : Later s s :=
  ⟨fun _ _ h => h, Nat.le_refl _, fun _ _ _ h _ _ => h, fun _ h => h, fun _ _ _ _ _ => rfl,
    fun _ _ _ h => h⟩

theorem Later.trans (first : Later s s') (second : Later s' s'') : Later s s'' where
  kind i kind hi := second.kind i kind (first.kind i kind hi)
  next_le := Nat.le_trans first.next_le second.next_le
  owner o kind r ho hr hlt :=
    first.owner o kind r (second.owner o kind r ho hr (Nat.lt_of_lt_of_le hlt first.next_le)) hr hlt
  fixed m hm := second.fixed m (first.fixed m hm)
  refs i kind hi hsettled halive := by
    have halive' := second.alive i kind (first.kind i kind hi) halive
    have hfirst := first.refs i kind hi hsettled halive'
    have hsettled' : s'.Settled i kind := by
      rw [Settled, hfirst]
      exact hsettled
    exact (second.refs i kind (first.kind i kind hi) hsettled' halive).trans hfirst
  alive i kind hi halive :=
    first.alive i kind hi (second.alive i kind (first.kind i kind hi) halive)

/-- One object more. -/
theorem Later.alloc {kind : RetainedObject} (hheap : s'.heap = s.heap.alloc kind)
    (hnext : s.next ≤ s'.next) (howner : ∀ r, kind.deletes = some r → s.next ≤ r)
    (hfixed : ∀ m ∈ s.fixed, m ∈ s'.fixed) : Later s s' where
  kind i kind' hi := by
    rw [hheap]
    exact kind_alloc_of_some hi
  next_le := hnext
  owner o kind' r ho hr hlt := by
    rw [hheap, Heap.kind_alloc] at ho
    split at ho
    · cases ho
      exact absurd hlt (Nat.not_lt.mpr (howner r hr))
    · exact ho
  fixed := hfixed
  refs i _ _ _ _ := by rw [hheap, Heap.refs_alloc]
  alive i kind' hi halive := by
    have hne : i ≠ s.heap.objects.length := Nat.ne_of_lt (lt_new_of_kind hi)
    rwa [Alive, hheap, Heap.count_alloc, if_neg hne] at halive

theorem alive_keep {r : Nat} (hr : s.Alive r) (j : Nat) :
    (s.heap.keep i r).count j ≠ 0 ↔ s.Alive j := by
  rw [Heap.count_keep, Heap.retain, Heap.count_recount hr]
  split
  · next heq =>
    rw [heq]
    exact ⟨fun _ => hr, fun _ => Nat.succ_ne_zero _⟩
  · exact Iff.rfl

/-- An object that is not settled retains another one. -/
theorem Later.keep {r : Nat} {kind : RetainedObject} (hi : s.object i = some kind)
    (hsettled : ¬ s.Settled i kind) (hr : s.Alive r) :
    Later s { s with heap := s.heap.keep i r } where
  kind j kind' hj := (Heap.kind_keep ..).trans hj
  next_le := Nat.le_refl _
  owner o kind' x ho _ _ := (Heap.kind_keep ..).symm.trans ho
  fixed _ hm := hm
  refs j kind' hj hsettled' _ := by
    have hne : j ≠ i := by
      rintro rfl
      rw [(object_eq hi).2] at hj
      cases hj
      exact hsettled hsettled'
    show (s.heap.keep i r).refs j = _
    rw [Heap.refs_keep (object_eq hi).1, if_neg hne]
  alive j _ _ halive := (alive_keep hr j).mp halive

theorem Later.make {kind : RetainedObject} (next : Ref) (hle : s.next ≤ next)
    (howner : ∀ r, kind.deletes = some r → s.next ≤ r) :
    Later s ({ s with next := next }.make kind) :=
  Later.alloc rfl hle howner fun _ hm => hm

/-- One object more that is never let go. -/
theorem Later.makeFixed {kind : RetainedObject} (next : Ref) (hle : s.next ≤ next)
    (howner : ∀ r, kind.deletes = some r → s.next ≤ r) :
    Later s ({ s with next := next }.makeFixed kind) :=
  Later.alloc rfl hle howner fun _ hm => List.mem_cons_of_mem _ hm

theorem Later.keepBooks (chapterMaxs : List Nat) :
    Later s (chapterMaxs.foldl (fun s chapterMax => s.makeFixed (.bibleBook chapterMax)) s) :=
  List.foldlRecOn chapterMaxs _ (Later.refl s) fun s' hlater _ _ =>
    hlater.trans (Later.makeFixed s'.next (Nat.le_refl _) nofun)

theorem Later.makeOn {kind kind' : RetainedObject} {r : Nat} (hr : s.object r = some kind')
    (hdeletes : kind.deletes = none) : Later s (s.makeOn kind r) := by
  have hmake : Later s (s.make kind) :=
    Later.make s.next (Nat.le_refl _) (by rw [hdeletes]; exact nofun)
  exact {
    kind := fun i kind'' hi => (Heap.kind_keep ..).trans (hmake.kind i kind'' hi)
    next_le := Nat.le_refl _
    owner := fun o kind'' x ho => hmake.owner o kind'' x ((Heap.kind_keep ..).symm.trans ho)
    fixed := fun _ hm => hm
    refs := fun i kind'' hi _ _ => by
      rw [refs_makeOn, if_neg (Nat.ne_of_lt (lt_new_of_kind hi))]
    alive := fun i kind'' hi halive =>
      hmake.alive i kind'' hi
        ((alive_keep (s := s.make kind) (object_eq (object_make hr)).1 i).mp halive) }

theorem Later.addChapter {b chapterMax a made : Nat} (h : Filling s b chapterMax a made)
    (number : Nat) : Later s (s.addChapter b a number) :=
  (Later.makeOn h.book rfl).trans
    (Later.keep (object_makeOn _ h.book h.isArray) (fun h => h.elim (· rfl) (·.1 rfl))
      (object_eq (object_makeOn_new _ h.book)).1)

theorem Later.makeChapters {b chapterMax : Nat} (h : WellKept s)
    (hb : s.object b = some (.bibleBook chapterMax)) (hnone : s.heap.refs b = []) :
    Later s (s.makeChapters b chapterMax) := by
  have hfilling := h.filling hb hnone
  have hmake : Later s (s.make .array) := Later.make s.next (Nat.le_refl _) nofun
  have hloop : ∀ n, Later s ((List.range n).foldl
      (fun acc i => acc.addChapter b s.new (i + 1)) (s.make .array)) := by
    intro n
    induction n with
    | zero => exact hmake
    | succ n ih =>
      rw [List.range_succ, List.foldl_append]
      exact ih.trans (Later.addChapter (hfilling.addChapters n) (n + 1))
  have hfull := hfilling.addChapters chapterMax
  exact (hloop chapterMax).trans (Later.keep hfull.book
    (fun h => h.elim (· rfl) fun h => h.2 hfull.unasked) (object_eq hfull.isArray).1)

theorem Later.shrinks {h' : Heap RetainedObject} {held : List Nat} (hshrinks : Shrinks s.heap h') :
    Later s { s with heap := h', held := held } where
  kind i _ hi := (hshrinks.kind i).trans hi
  next_le := Nat.le_refl _
  owner o _ _ ho _ _ := (hshrinks.kind o).symm.trans ho
  fixed _ hm := hm
  refs i _ _ _ halive := (hshrinks.alive i halive).2
  alive i _ _ halive := (hshrinks.alive i halive).1

theorem Later.retain (halive : s.Alive i) :
    Later s { s with heap := s.heap.retain i, held := i :: s.held } where
  kind j _ hj := (s.heap.kind_retain i j).trans hj
  next_le := Nat.le_refl _
  owner o _ _ ho _ _ := (s.heap.kind_retain i o).symm.trans ho
  fixed _ hm := hm
  refs j _ _ _ _ := s.heap.refs_recount i _ j
  alive j _ _ hj := by
    have hcount : (s.heap.retain i).count j ≠ 0 := hj
    rw [Heap.retain, Heap.count_recount halive] at hcount
    split at hcount
    · next heq => exact heq ▸ halive
    · exact hcount

theorem Move.later {call : ObjectCall} (h : WellKept s) (hmove : Move s call s') : Later s s' := by
  cases hmove with
  | stay => exact Later.refl s
  | setDefault => exact { Later.refl s with }
  | make hmade => exact Later.make _ hmade.next_le hmade.owner
  | makeDefault =>
    refine Later.alloc rfl (Nat.le_succ _) (fun r hr => ?_) fun _ hm => List.mem_cons_of_mem _ hm
    cases hr
    exact Nat.le_refl _
  | keepBooks chapterMaxs => exact Later.keepBooks chapterMaxs
  | makeOn hr hkind hobject =>
    refine Later.makeOn hr ?_
    cases hkind <;> rfl
  | makeChapters hb hnone => exact Later.makeChapters h hb hnone
  | retain halive => exact Later.retain halive
  | release hheld => exact Later.shrinks (Shrinks.releases s.heap [_])

theorem WellKept.later (h : WellKept s) (calls : List ObjectCall) : Later s (s.run calls) := by
  induction calls generalizing s with
  | nil => exact Later.refl s
  | cons call calls ih => exact ((step_move h.engine call).later h).trans (ih (h.step call))

/-! ## Engine objects -/

/-- The object deletes this engine object. -/
def Owns (s : RetainedObjects) (o : Nat) (r : Ref) : Prop :=
  ∃ kind, s.heap.kind o = some kind ∧ kind.deletes = some r

theorem WellKeptBut.mem_deleted (h : WellKeptBut loose s) {r : Ref} :
    r ∈ s.deleted ↔ ∃ o, s.Owns o r ∧ ¬ s.Alive o := by
  rw [deleted, List.mem_filterMap]
  constructor
  · rintro ⟨o, hgone, ho⟩
    rw [Option.bind_eq_some_iff] at ho
    exact ⟨o, ho, not_not.mpr ((h.sound.gone_iff o).mp hgone).2⟩
  · rintro ⟨o, ⟨kind, hkind, hr⟩, hdead⟩
    refine ⟨o, (h.sound.gone_iff o).mpr ⟨lt_new_of_kind hkind, not_not.mp hdead⟩, ?_⟩
    rw [hkind, Option.bind_some, hr]

/-- No engine object is deleted twice. -/
theorem WellKeptBut.deleted_nodup (h : WellKeptBut loose s) : s.deleted.Nodup := by
  refine h.sound.once.filterMap fun o o' r ho ho' => ?_
  rw [Option.mem_def, Option.bind_eq_some_iff] at ho ho'
  obtain ⟨kind, hkind, hr⟩ := ho
  obtain ⟨kind', hkind', hr'⟩ := ho'
  exact h.owner o o' kind kind' r hkind hkind' hr hr'

/-- The client gives up some of its references. -/
theorem run_releases (held : List Nat) (hheld : ∀ x, held.count x ≤ s.held.count x) :
    (s.run (held.map .release)).held = s.held.diff held ∧
      (s.run (held.map .release)).fixed = s.fixed := by
  induction held generalizing s with
  | nil => exact ⟨rfl, rfl⟩
  | cons i held ih =>
    have hi : i ∈ s.held := by
      have hcount := hheld i
      rw [List.count_cons_self] at hcount
      exact List.count_pos_iff.mp (by omega)
    have hstep : s.step (.release i) =
        { s with heap := s.heap.release i, held := s.held.erase i } := if_pos hi
    have hrest := ih (s := s.step (.release i)) fun x => by
      have hcount := hheld x
      rw [hstep]
      show _ ≤ (s.held.erase i).count x
      rw [List.count_erase]
      rw [List.count_cons] at hcount
      omega
    rw [hstep] at hrest
    rw [List.map_cons, run, List.foldl_cons, hstep, List.diff_cons]
    exact hrest

/-- What the client holds besides one reference is released. -/
theorem run_releases_but (hi : i ∈ s.held) :
    (∀ x, x ∈ (s.run ((s.held.erase i).map .release)).held ↔ x = i) ∧
      (s.run ((s.held.erase i).map .release)).fixed = s.fixed := by
  obtain ⟨hheld, hfixed⟩ := run_releases (s := s) (s.held.erase i) fun x =>
    (List.erase_sublist).count_le x
  refine ⟨fun x => ?_, hfixed⟩
  have hpos := List.count_pos_iff.mpr hi
  rw [hheld, ← List.count_pos_iff, List.count_diff, List.count_erase]
  by_cases hx : x = i
  · rw [hx]
    simp only [beq_self_eq_true, if_true, iff_true]
    omega
  · have hbeq : (i == x) = false := beq_false_of_ne (Ne.symm hx)
    simp [hbeq, hx]

/-- What is never let go retains arrays only, of the books' chapters. -/
theorem WellKeptBut.refs_fixed (h : WellKeptBut loose s) {m x : Nat} (hm : m ∈ s.fixed)
    (hx : x ∈ s.heap.refs m) : s.heap.kind x = some .array := by
  obtain ⟨kind, hkind, hfixed⟩ := h.fixed m hm
  cases hfixed with
  | manager swManager =>
    obtain ⟨_, _, hkind', -, hretain⟩ := h.refs m x hx
    rw [hkind] at hkind'
    cases hkind'
    cases hretain
  | bibleBook chapterMax => exact h.array_of_book hkind hx

/-- So it retains nothing that works with an engine object. -/
theorem WellKeptBut.not_mem_refs_fixed (h : WellKeptBut loose s) {m x : Nat} (hm : m ∈ s.fixed)
    {kind : RetainedObject} (hkind : s.heap.kind x = some kind)
    (hobject : kind.engineObject ≠ none) : x ∉ s.heap.refs m := by
  intro hx
  have harray := h.refs_fixed hm hx
  rw [hkind] at harray
  cases harray
  exact hobject rfl

/-- **Which wrappers have their engine object** whatever happens: where the client holds a wrapper,
no calls delete the engine object while the wrapper is there exactly if the wrapper is the one that
deletes it, or retains the one, or this is a default manager, or nobody deletes it. -/
theorem engine_kept_iff (calls : List ObjectCall) {kind : RetainedObject} {r : Ref}
    (hheld : i ∈ (initial.run calls).held) (hkind : (initial.run calls).heap.kind i = some kind)
    (hobject : kind.engineObject = some r) :
    (∀ later, ((initial.run calls).run later).Alive i →
      r ∉ ((initial.run calls).run later).deleted) ↔
    ∀ o, (initial.run calls).Owns o r →
      o = i ∨ o ∈ (initial.run calls).heap.refs i ∨ o ∈ (initial.run calls).fixed := by
  have h : WellKept (initial.run calls) := wellKept_initial.run calls
  generalize initial.run calls = s at h hheld hkind ⊢
  have hsome : kind.engineObject ≠ none := by
    rw [hobject]
    exact Option.some_ne_none r
  constructor
  · intro hkept o howns
    by_contra hnot
    rw [not_or, not_or] at hnot
    obtain ⟨hne, hrefs, hfixed⟩ := hnot
    -- everything else is released
    obtain ⟨hleft, hsame⟩ := run_releases_but hheld
    have hafter := h.run ((s.held.erase i).map .release)
    have hlater := h.later ((s.held.erase i).map .release)
    have hnever := hkept ((s.held.erase i).map .release)
    generalize s.run ((s.held.erase i).map .release) = s' at hleft hsame hafter hlater hnever
    have halive : s'.Alive i :=
      (hafter.sound.alive_iff i).mpr (Or.inl (List.mem_append_right _ ((hleft i).mpr rfl)))
    obtain ⟨kind', hkind', hr⟩ := howns
    have howner : kind'.engineObject ≠ none := by
      rw [engineObject_of_deletes hr]
      exact Option.some_ne_none r
    refine hnever halive (hafter.mem_deleted.mpr ⟨o, ⟨kind', hlater.kind o kind' hkind', hr⟩, ?_⟩)
    rw [hafter.alive_iff (hlater.kind o kind' hkind') howner, hsame]
    rintro (ho | ⟨j, hj, hoj⟩)
    · rcases List.mem_append.mp ho with ho | ho
      · exact hfixed ho
      · exact hne ((hleft o).mp ho)
    · rcases List.mem_append.mp hj with hj | hj
      · exact hafter.not_mem_refs_fixed (hsame ▸ hj) (hlater.kind o kind' hkind') howner hoj
      · rw [(hleft j).mp hj, hlater.refs i kind hkind (Or.inl hsome) halive] at hoj
        exact hrefs hoj
  · intro howners later halive hdeleted
    have hafter := h.run later
    have hlater := h.later later
    obtain ⟨o, ⟨kind', hkind', hr⟩, hdead⟩ := hafter.mem_deleted.mp hdeleted
    have hlt : r < s.next := h.engine i kind r hkind hobject
    have howns : s.Owns o r := ⟨kind', hlater.owner o kind' r hkind' hr hlt, hr⟩
    rcases howners o howns with rfl | hrefs | hfixed
    · exact hdead halive
    · refine hdead (hafter.alive_of_mem (i := i) ?_)
      rw [hlater.refs i kind hkind (Or.inl hsome) halive]
      exact hrefs
    · exact hdead ((hafter.sound.alive_iff o).mpr
        (Or.inl (List.mem_append_left _ (hlater.fixed o hfixed))))

/-- A module keeps its manager, and a copy of a key does not keep the key. -/
theorem engine_kept_iff_copy :
    let calls : List ObjectCall := [.initWithPath, .moduleWithName 0, .newKey, .clone 2]
    (∀ later, ((initial.run calls).run later).Alive 1 →
      0 ∉ ((initial.run calls).run later).deleted) ∧
    ¬ ∀ later, ((initial.run calls).run later).Alive 3 →
      1 ∉ ((initial.run calls).run later).deleted := by
  intro calls
  have h : WellKept (initial.run calls) := wellKept_initial.run calls
  have hmodule : (initial.run calls).heap.kind 1 = some (.module 0) := by decide
  have hcopy : (initial.run calls).heap.kind 3 = some (.key 1 false) := by decide
  have howns : (initial.run calls).Owns 2 1 := ⟨.key 1 true, by decide, rfl⟩
  constructor
  · refine (engine_kept_iff calls (by decide) hmodule rfl).mpr ?_
    rintro o ⟨kind, hkind, hr⟩
    have ho : o = 0 := h.owner o 0 kind (.manager 0 true) 0 hkind (by decide) hr rfl
    rw [ho]
    exact Or.inr (Or.inl (by decide))
  · intro hkept
    have howner := (engine_kept_iff calls (by decide) hcopy rfl).mp hkept 2 howns
    revert howner
    decide

end ObjCSword.RetainedObjects
