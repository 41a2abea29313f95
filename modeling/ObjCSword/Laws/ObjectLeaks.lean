import Mathlib.Data.List.Induction
import ObjCSword.Laws.ObjectLifetimes

/-!
# What is never let go

A book retains the array of its chapters, the array the chapters, and each chapter the book. So once
the chapters of a book were asked for, the book, the array and the chapters stay, whatever the
client releases. This, the books that the verse manager keeps and the default manager that was made
by `defaultManager` is all that stays when the client has released everything (`never_let_go_iff`);
of the engine objects there stay those of such managers and those made for sources on the local disk
(`engine_left_iff`).
-/

namespace ObjCSword.RetainedObjects

open Lib.RetainCount RetainedObject

variable {s s' : RetainedObjects} {i j b c chapterMax : Nat}

/-! ## Books and their chapters -/

/-- A chapter stays, and its book with it. -/
theorem WellKept.chapter_alive (h : WellKept s) {number : Nat}
    (hc : s.heap.kind c = some (.bibleChapter number)) :
    s.Alive c ∧ ∃ b a, a ∈ s.heap.refs b ∧ c ∈ s.heap.refs a ∧ s.heap.refs c = [b] := by
  obtain ⟨b, a, ha, hca⟩ := (h.chapter c number hc).resolve_left fun hc => hc
  exact ⟨h.alive_of_mem hca, b, a, ha, hca, (h.refs_chapter hc ha hca).2⟩

/-- A book that has chapters keeps its array. -/
theorem WellKept.refs_book_later (h : WellKept s) (h' : WellKept s') (hlater : Later s s')
    (hb : s.heap.kind b = some (.bibleBook chapterMax)) (hmax : chapterMax ≠ 0)
    (hasked : s.heap.refs b ≠ []) : s'.heap.refs b ≠ [] := by
  obtain ⟨a, ha⟩ := List.exists_mem_of_ne_nil _ hasked
  obtain ⟨hlength, hchapters⟩ := h.book b chapterMax a hb ha
  have hfull : s.heap.refs a ≠ [] := fun hnil => hmax (by rw [← hlength, hnil, List.length_nil])
  obtain ⟨c, hc⟩ := List.exists_mem_of_ne_nil _ hfull
  obtain ⟨_, _, harray, hchapter, hretain⟩ := h.refs a c hc
  rw [h.array_of_book hb ha] at harray
  cases harray
  cases hretain
  rename_i number
  -- the chapter is there still, and it leads to the book and back
  obtain ⟨halive, b', a', ha', hca', hrefs⟩ := h'.chapter_alive (hlater.kind c _ hchapter)
  have hsettled : s.Settled c (.bibleChapter number) :=
    Or.inr ⟨nofun, by rw [hchapters c hc]; exact List.cons_ne_nil b []⟩
  rw [hlater.refs c _ hchapter hsettled halive, hchapters c hc] at hrefs
  rw [List.singleton_inj.mp hrefs]
  exact List.ne_nil_of_mem ha'

/-- A book that is there when the client holds nothing is the verse manager's, or has chapters. -/
theorem WellKept.book_alive (h : WellKept s) (hheld : s.held = [])
    (hb : s.heap.kind b = some (.bibleBook chapterMax)) (halive : s.Alive b) :
    b ∈ s.fixed ∨ chapterMax ≠ 0 ∧ s.heap.refs b ≠ [] := by
  rcases (h.sound.alive_iff b).mp halive with hfixed | ⟨c, hbc⟩
  · rw [hheld, List.append_nil] at hfixed
    exact Or.inl hfixed
  · obtain ⟨_, _, hc, hb', hretain⟩ := h.refs c b hbc
    rw [hb] at hb'
    cases hb'
    cases hretain
    obtain ⟨-, b', a, ha, hca, hrefs⟩ := h.chapter_alive hc
    rw [hrefs] at hbc
    rw [← List.mem_singleton.mp hbc] at ha
    refine Or.inr ⟨fun hzero => ?_, List.ne_nil_of_mem ha⟩
    have hlength := (h.book b chapterMax a hb ha).1
    rw [hzero] at hlength
    rw [List.length_eq_zero_iff.mp hlength] at hca
    cases hca

/-- `chapters` was asked of the book while it was there. -/
def Asked (calls : List ObjectCall) (b : Nat) : Prop :=
  ∃ earlier later, calls = earlier ++ .chapters b :: later ∧ (initial.run earlier).Alive b

theorem refs_chapters (h : WellKept s) (hb : s.object b = some (.bibleBook chapterMax)) :
    (s.step (.chapters b)).heap.refs b ≠ [] := by
  rw [step, hb]
  by_cases hnone : s.heap.refs b = []
  · have hfull := (h.filling hb hnone).addChapters chapterMax
    show (if s.heap.refs b = [] then s.makeChapters b chapterMax else s).heap.refs b ≠ []
    rw [if_pos hnone]
    show (Heap.keep _ b s.new).refs b ≠ []
    rw [Heap.refs_keep (object_eq hfull.book).1, if_pos rfl]
    exact List.cons_ne_nil _ _
  · show (if s.heap.refs b = [] then s.makeChapters b chapterMax else s).heap.refs b ≠ []
    rw [if_neg hnone]
    exact hnone

theorem run_append (s : RetainedObjects) (calls calls' : List ObjectCall) :
    s.run (calls ++ calls') = (s.run calls).run calls' := List.foldl_append

/-- A book whose chapters were asked for has them ever after. -/
theorem refs_of_asked {calls : List ObjectCall} (hasked : Asked calls b)
    (hb : (initial.run calls).heap.kind b = some (.bibleBook chapterMax)) (hmax : chapterMax ≠ 0) :
    (initial.run calls).heap.refs b ≠ [] := by
  obtain ⟨earlier, later, rfl, halive⟩ := hasked
  have h := wellKept_initial.run earlier
  rw [run_append] at hb ⊢
  generalize initial.run earlier = s at h halive hb ⊢
  obtain ⟨o, ho, -, -⟩ := Heap.object_of_count halive
  have hold : s.heap.kind b = some o.kind := by
    rw [Heap.kind, ho]
    rfl
  have hb' : o.kind = .bibleBook chapterMax := by
    have hlater := (h.later (.chapters b :: later)).kind b _ hold
    rw [hb] at hlater
    exact (Option.some_inj.mp hlater).symm
  rw [hb'] at hold
  have hstep := h.step (.chapters b)
  exact hstep.refs_book_later (hstep.run later) (hstep.later later)
    ((h.later [.chapters b]).kind b _ hold) hmax (refs_chapters h (object_of_kind halive hold))

/-- The chapters of one book are made, and no other book's. -/
theorem refs_makeChapters_of_book {x n : Nat} (h : WellKept s)
    (hb : s.object b = some (.bibleBook chapterMax)) (hnone : s.heap.refs b = []) (hx : x ≠ b)
    (hkind : (s.makeChapters b chapterMax).heap.kind x = some (.bibleBook n)) :
    (s.makeChapters b chapterMax).heap.refs x = s.heap.refs x := by
  have hfilling := h.filling hb hnone
  have hloop : ∀ k, ((List.range k).foldl (fun acc i => acc.addChapter b s.new (i + 1))
        (s.make .array)).heap.kind x = some (.bibleBook n) →
      ((List.range k).foldl (fun acc i => acc.addChapter b s.new (i + 1))
        (s.make .array)).heap.refs x = s.heap.refs x := by
    intro k
    induction k with
    | zero => exact fun _ => s.heap.refs_alloc .array x
    | succ k ih =>
      have hk := hfilling.addChapters k
      rw [List.range_succ, List.foldl_append]
      generalize (List.range k).foldl (fun acc i => acc.addChapter b s.new (i + 1))
        (s.make .array) = sk at hk ih ⊢
      intro hbook
      have hadd : (sk.addChapter b s.new (k + 1)).heap.kind x = some (.bibleBook n) := hbook
      rw [kind_addChapter] at hadd
      split at hadd
      · cases hadd
      · next hnew =>
        have harray : x ≠ s.new := by
          rintro rfl
          rw [(object_eq hk.isArray).2] at hadd
          cases hadd
        show (sk.addChapter b s.new (k + 1)).heap.refs x = _
        rw [hk.refs_addChapter, if_neg harray, if_neg hnew, ih hadd]
  have hfull := hfilling.addChapters chapterMax
  have hkeep : (s.makeChapters b chapterMax).heap.refs x =
      ((List.range chapterMax).foldl (fun acc i => acc.addChapter b s.new (i + 1))
        (s.make .array)).heap.refs x := by
    show (Heap.keep _ b s.new).refs x = _
    rw [Heap.refs_keep (object_eq hfull.book).1, if_neg hx]
  rw [hkeep]
  exact hloop chapterMax ((Heap.kind_keep ..).symm.trans hkind)

theorem refs_keepBooks (s : RetainedObjects) (chapterMaxs : List Nat) (x : Nat) :
    (chapterMaxs.foldl (fun s chapterMax => s.makeFixed (.bibleBook chapterMax)) s).heap.refs x =
      s.heap.refs x :=
  List.foldlRecOn (motive := fun s' : RetainedObjects => s'.heap.refs x = s.heap.refs x)
    chapterMaxs _ rfl fun s' hs' _ _ => (s'.heap.refs_alloc _ x).trans hs'

/-- Only `chapters` gives a book its chapters. -/
theorem Move.asked {call : ObjectCall} (h : WellKept s) (hmove : Move s call s')
    (hb : s'.heap.kind b = some (.bibleBook chapterMax)) (hrefs : s'.heap.refs b ≠ []) :
    s.heap.refs b ≠ [] ∨ call = .chapters b ∧ s.Alive b := by
  cases hmove with
  | stay => exact Or.inl hrefs
  | setDefault => exact Or.inl hrefs
  | make | makeDefault => exact Or.inl (s.heap.refs_alloc _ b ▸ hrefs)
  | keepBooks chapterMaxs => exact Or.inl (refs_keepBooks s chapterMaxs b ▸ hrefs)
  | makeOn hr hkind hobject =>
    rw [refs_makeOn] at hrefs
    split at hrefs
    · next hnew =>
      rw [hnew, (object_eq (object_makeOn_new _ hr)).2] at hb
      cases hb
      exact absurd rfl hobject
    · exact Or.inl hrefs
  | @makeChapters b' chapterMax' hb' hnone =>
    by_cases heq : b = b'
    · exact Or.inr ⟨by rw [heq], heq ▸ (object_eq hb').1⟩
    · exact Or.inl (refs_makeChapters_of_book h hb' hnone heq hb ▸ hrefs)
  | retain => exact Or.inl (s.heap.refs_recount _ _ b ▸ hrefs)
  | @release _ i hheld =>
    have hs := (h.release hheld).sound
    have halive : (s.heap.release i).count b ≠ 0 := fun hzero => hrefs (hs.empty b hzero)
    exact Or.inl (((Shrinks.releases s.heap [i]).alive b halive).2 ▸ hrefs)

/-- A book that has chapters was asked for them. -/
theorem asked_of_refs {calls : List ObjectCall}
    (hb : (initial.run calls).heap.kind b = some (.bibleBook chapterMax))
    (hrefs : (initial.run calls).heap.refs b ≠ []) : Asked calls b := by
  induction calls using List.reverseRecOn with
  | nil => exact absurd rfl hrefs
  | append_singleton calls call ih =>
    have h := wellKept_initial.run calls
    rw [run_append] at hb hrefs
    have hmove := step_move h.engine call
    rcases hmove.asked h hb hrefs with hrefs' | ⟨rfl, halive⟩
    · obtain ⟨a, ha⟩ := List.exists_mem_of_ne_nil _ hrefs'
      obtain ⟨kind, _, hkind, -⟩ := h.refs b a ha
      have hsame := (h.later [call]).kind b kind hkind
      rw [hb] at hsame
      cases hsame
      obtain ⟨earlier, later, heq, halive⟩ := ih hkind hrefs'
      exact ⟨earlier, later ++ [call], by rw [heq, List.append_assoc, List.cons_append], halive⟩
    · exact ⟨calls, [], rfl, halive⟩

/-! ## When everything is released -/

/-- What stays. -/
def Stays (calls : List ObjectCall) (i : Nat) : RetainedObject → Prop
  | .manager _ _ => i ∈ (initial.run calls).fixed
  | .bibleBook chapterMax =>
    i ∈ (initial.run calls).fixed ∨ chapterMax ≠ 0 ∧ Asked calls i
  | .bibleChapter _ => True
  | .array =>
    (initial.run calls).heap.refs i ≠ [] ∨
      ∃ b ∈ (initial.run calls).fixed, i ∈ (initial.run calls).heap.refs b
  | _ => False

/-- Of what names engine objects the default managers stay. -/
theorem WellKept.alive_iff_fixed (h : WellKept s) (hheld : s.held = []) {kind : RetainedObject}
    (hkind : s.heap.kind i = some kind) (hobject : kind.engineObject ≠ none) :
    s.Alive i ↔ i ∈ s.fixed := by
  rw [h.alive_iff hkind hobject, hheld, List.append_nil]
  refine or_iff_left ?_
  rintro ⟨j, hj, hij⟩
  exact h.not_mem_refs_fixed hj hkind hobject hij

/-- **The engine objects** are deleted once at most, and when the client holds nothing any more all
of them are deleted but those of the default managers and those that nobody deletes. -/
theorem engine_left_iff (calls : List ObjectCall) :
    (initial.run calls).deleted.Nodup ∧ ((initial.run calls).held = [] →
      ∀ r, r ∉ (initial.run calls).deleted ↔
        ∀ o, (initial.run calls).Owns o r → o ∈ (initial.run calls).fixed) := by
  have h : WellKept (initial.run calls) := wellKept_initial.run calls
  refine ⟨h.deleted_nodup, fun hheld r => ?_⟩
  rw [h.mem_deleted, not_exists]
  refine forall_congr' fun o => ?_
  rw [not_and, not_not]
  refine forall_congr' fun ⟨kind, hkind, hr⟩ => h.alive_iff_fixed hheld hkind ?_
  rw [engineObject_of_deletes hr]
  exact Option.some_ne_none r

theorem engine_left_iff_local :
    let calls : List ObjectCall := [.swordManagerOfLocalSource, .release 0]
    (initial.run calls).held = [] ∧ 0 ∉ (initial.run calls).deleted := by
  intro calls
  have hheld : (initial.run calls).held = [] := by decide
  refine ⟨hheld, ((engine_left_iff calls).2 hheld 0).mpr ?_⟩
  rintro o ⟨kind, hkind, hr⟩
  have hlater := (wellKept_initial.run [.swordManagerOfLocalSource]).later [.release 0]
  have hmade := hlater.owner o kind 0 hkind hr (by decide)
  have ho : o = 0 := Nat.lt_one_iff.mp (lt_new_of_kind hmade)
  rw [ho] at hmade
  have hkind' : kind = .manager 0 false := Option.some_inj.mp (hmade.symm.trans (by decide))
  rw [hkind'] at hr
  cases hr

/-! ## The default manager -/

theorem defaultInstance_keepBooks (s : RetainedObjects) (chapterMaxs : List Nat) :
    (chapterMaxs.foldl (fun s chapterMax => s.makeFixed (.bibleBook chapterMax))
      s).defaultInstance = s.defaultInstance := by
  induction chapterMaxs generalizing s with
  | nil => rfl
  | cons chapterMax chapterMaxs ih => exact ih (s.makeFixed (.bibleBook chapterMax))

/-- Another default manager is a manager. -/
theorem Move.default {call : ObjectCall} (hmove : Move s call s') {m : Nat}
    (hm : s'.defaultInstance = some m) : s.defaultInstance = some m ∨
      ∃ swManager deleteSWMgr, s'.heap.kind m = some (.manager swManager deleteSWMgr) := by
  cases hmove with
  | stay | make | makeOn | retain | release => exact Or.inl hm
  | keepBooks chapterMaxs =>
    exact Or.inl ((defaultInstance_keepBooks s chapterMaxs).symm.trans hm)
  | setDefault hkind =>
    cases hm
    exact Or.inr ⟨_, _, hkind⟩
  | makeDefault =>
    cases hm
    exact Or.inr ⟨s.next, true, (object_eq (object_make_new s _)).2⟩
  | @makeChapters b chapterMax hb hnone =>
    have hloop : ∀ n, ((List.range n).foldl (fun acc i => acc.addChapter b s.new (i + 1))
        (s.make .array)).defaultInstance = s.defaultInstance := by
      intro n
      induction n with
      | zero => rfl
      | succ n ih =>
        rw [List.range_succ, List.foldl_append]
        exact ih
    exact Or.inl ((hloop chapterMax).symm.trans hm)

theorem default_kind (calls : List ObjectCall) {m : Nat}
    (hm : (initial.run calls).defaultInstance = some m) :
    ∃ swManager deleteSWMgr,
      (initial.run calls).heap.kind m = some (.manager swManager deleteSWMgr) := by
  induction calls using List.reverseRecOn with
  | nil => cases hm
  | append_singleton calls call ih =>
    have h := wellKept_initial.run calls
    rw [run_append] at hm ⊢
    have hlater := h.later [call]
    rcases (step_move h.engine call).default hm with hm | hkind
    · obtain ⟨swManager, deleteSWMgr, hkind⟩ := ih hm
      exact ⟨swManager, deleteSWMgr, hlater.kind m _ hkind⟩
    · exact hkind

/-- **The default manager** that was set is there exactly while the client holds it, or a module
that was looked up in it, unless `defaultManager` made it. -/
theorem default_alive_iff (calls : List ObjectCall) {m : Nat}
    (hm : (initial.run calls).defaultInstance = some m) :
    (initial.run calls).Alive m ↔ m ∈ (initial.run calls).fixed ∨ m ∈ (initial.run calls).held ∨
      ∃ j ∈ (initial.run calls).held, m ∈ (initial.run calls).heap.refs j := by
  have h : WellKept (initial.run calls) := wellKept_initial.run calls
  obtain ⟨swManager, deleteSWMgr, hkind⟩ := default_kind calls hm
  rw [h.alive_iff hkind nofun, List.mem_append, or_assoc]
  refine or_congr_right (or_congr_right ⟨?_, ?_⟩)
  · rintro ⟨j, hj, hmj⟩
    rcases List.mem_append.mp hj with hj | hj
    · exact absurd hmj (h.not_mem_refs_fixed hj hkind nofun)
    · exact ⟨j, hj, hmj⟩
  · rintro ⟨j, hj, hmj⟩
    exact ⟨j, List.mem_append_right _ hj, hmj⟩

theorem default_alive_iff_released :
    let calls : List ObjectCall := [.initWithPath, .useAsDefaultManager 0, .release 0]
    (initial.run calls).defaultInstance = some 0 ∧ ¬ (initial.run calls).Alive 0 := by
  intro calls
  have hm : (initial.run calls).defaultInstance = some 0 := by decide
  have hfixed : (initial.run calls).fixed = [] := by decide
  have hheld : (initial.run calls).held = [] := by decide
  refine ⟨hm, fun halive => ?_⟩
  rw [default_alive_iff calls hm, hfixed, hheld] at halive
  rcases halive with h | h | ⟨_, h, -⟩ <;> cases h

end ObjCSword.RetainedObjects
