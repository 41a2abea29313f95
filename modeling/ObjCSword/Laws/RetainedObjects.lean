import Mathlib.Data.Set.Insert
import ObjCSword.RetainedObjects

/-!
# The references between the wrappers

Whatever a client calls, the counts are right, each class retains what it should and engine objects
have one owner (`WellKept.run`). Each call is one of a few moves (`step_move`), and each move keeps
this: an object is made, on its own or on another one that it retains, the chapters of a book are
made, or a reference is taken or given up.
-/

namespace ObjCSword

open Lib.RetainCount

namespace RetainedObject

/-- What an object of one class retains of another one. -/
inductive MayRetain : RetainedObject → RetainedObject → Prop
  | module (swManager : Ref) (deleteSWMgr : Bool) :
    MayRetain (.module swManager) (.manager swManager deleteSWMgr)
  | verseEnumerator (sk : Ref) (created : Bool) : MayRetain (.verseEnumerator sk) (.key sk created)
  | bibleBook (chapterMax : Nat) : MayRetain (.bibleBook chapterMax) .array
  | array (number : Nat) : MayRetain .array (.bibleChapter number)
  | bibleChapter (number chapterMax : Nat) :
    MayRetain (.bibleChapter number) (.bibleBook chapterMax)

/-- What is never let go: managers that `defaultManager` makes, and the verse manager's books. -/
inductive StaysFixed : RetainedObject → Prop
  | manager (swManager : Ref) : StaysFixed (.manager swManager true)
  | bibleBook (chapterMax : Nat) : StaysFixed (.bibleBook chapterMax)

theorem engineObject_of_deletes {kind : RetainedObject} {r : Ref} (h : kind.deletes = some r) :
    kind.engineObject = some r := by
  cases kind with
  | manager swManager deleteSWMgr => cases deleteSWMgr <;> first | cases h; rfl | cases h
  | key sk created => cases created <;> first | cases h; rfl | cases h
  | _ => cases h

end RetainedObject

namespace RetainedObjects

open RetainedObject

variable {s s' : RetainedObjects} {i j : Nat} {loose : Set Nat}

/-- A class whose objects are made on their own, with a new engine object or with one that another
object names. -/
structure MadeAt (s : RetainedObjects) (kind : RetainedObject) (next : Ref) : Prop where
  next_le : s.next ≤ next
  lt_next : ∀ r, kind.engineObject = some r → r < next
  owner : ∀ r, kind.deletes = some r → s.next ≤ r
  not_chapter : ∀ number, kind ≠ .bibleChapter number

/-- What a call may do. -/
inductive Move (s : RetainedObjects) : ObjectCall → RetainedObjects → Prop
  | stay {call : ObjectCall} : Move s call s
  | setDefault {call : ObjectCall} {m : Nat} {swManager : Ref} {deleteSWMgr : Bool}
      (hm : s.heap.kind m = some (.manager swManager deleteSWMgr)) :
    Move s call { s with defaultInstance := some m }
  | make {call : ObjectCall} {kind : RetainedObject} {next : Ref} (hmade : s.MadeAt kind next) :
    Move s call ({ s with next := next }.make kind)
  | makeDefault {call : ObjectCall} :
    Move s call
      { s.newEngineObject.makeFixed (.manager s.next true) with defaultInstance := some s.new }
  | keepBooks {call : ObjectCall} (chapterMaxs : List Nat) :
    Move s call (chapterMaxs.foldl (fun s chapterMax => s.makeFixed (.bibleBook chapterMax)) s)
  | makeOn {call : ObjectCall} {kind kind' : RetainedObject} {r : Nat}
      (hr : s.object r = some kind') (hkind : MayRetain kind kind')
      (hobject : kind.engineObject ≠ none) :
    Move s call (s.makeOn kind r)
  | makeChapters {b chapterMax : Nat} (hb : s.object b = some (.bibleBook chapterMax))
      (hnone : s.heap.refs b = []) : Move s (.chapters b) (s.makeChapters b chapterMax)
  | retain {call : ObjectCall} {i : Nat} (halive : s.Alive i) :
    Move s call { s with heap := s.heap.retain i, held := i :: s.held }
  | release {call : ObjectCall} {i : Nat} (hheld : i ∈ s.held) :
    Move s call { s with heap := s.heap.release i, held := s.held.erase i }

theorem object_eq {kind : RetainedObject} (h : s.object i = some kind) :
    s.Alive i ∧ s.heap.kind i = some kind := by
  rw [object] at h
  split at h
  · next halive => exact ⟨halive, h⟩
  · cases h

/-- Each call is such a move, where the addresses that are named were given out. -/
theorem step_move (hengine : ∀ i kind r, s.heap.kind i = some kind → kind.engineObject = some r →
    r < s.next) (call : ObjectCall) : Move s call (s.step call) := by
  cases call with
  | initWithPath =>
    refine Move.make ⟨Nat.le_succ _, fun r h => ?_, fun r h => ?_, nofun⟩
    · cases h
      exact Nat.lt_succ_self _
    · cases h
      exact Nat.le_refl _
  | initWithSWMgr m =>
    rw [step]
    split
    · next swManager del hm =>
      refine Move.make ⟨Nat.le_refl _, fun r h => ?_, nofun, nofun⟩
      cases h
      exact hengine m _ _ (object_eq hm).2 rfl
    · exact Move.stay
  | swordManagerOfLocalSource =>
    refine Move.make ⟨Nat.le_succ _, fun r h => ?_, nofun, nofun⟩
    cases h
    exact Nat.lt_succ_self _
  | defaultManager =>
    rw [step]
    split
    · exact Move.makeDefault
    · exact Move.stay
  | useAsDefaultManager m =>
    rw [step]
    split
    · next hm => exact Move.setDefault (object_eq hm).2
    · exact Move.stay
  | moduleWithName m =>
    rw [step]
    split
    · next hm => exact Move.makeOn hm (.module _ _) nofun
    · exact Move.stay
  | moduleStatusInInstallSource =>
    refine Move.make ⟨Nat.le_succ _, fun r h => ?_, nofun, nofun⟩
    cases h
    exact Nat.lt_succ_self _
  | initWithSWModule j =>
    rw [step]
    split
    · next swMgr hj =>
      refine Move.make ⟨Nat.le_refl _, fun r h => ?_, nofun, nofun⟩
      cases h
      exact hengine j _ _ (object_eq hj).2 rfl
    · exact Move.stay
  | newKey =>
    refine Move.make ⟨Nat.le_succ _, fun r h => ?_, fun r h => ?_, nofun⟩
    · cases h
      exact Nat.lt_succ_self _
    · cases h
      exact Nat.le_refl _
  | clone k =>
    rw [step]
    split
    · next sk created hk =>
      refine Move.make ⟨Nat.le_refl _, fun r h => ?_, nofun, nofun⟩
      cases h
      exact hengine k _ _ (object_eq hk).2 rfl
    · exact Move.stay
  | verseEnumerator k =>
    rw [step]
    split
    · next hk => exact Move.makeOn hk (.verseEnumerator _ _) nofun
    · exact Move.stay
  | initWithBook chapterMax =>
    have hmade : s.MadeAt (.bibleBook chapterMax) s.next := ⟨Nat.le_refl _, nofun, nofun, nofun⟩
    exact Move.make hmade
  | booksForVersification chapterMaxs => exact Move.keepBooks chapterMaxs
  | chapters b =>
    rw [step]
    split
    · next hb =>
      split
      · next hnone => exact Move.makeChapters hb hnone
      · exact Move.stay
    · exact Move.stay
  | retain i =>
    rw [step]
    split
    · next halive => exact Move.retain halive
    · exact Move.stay
  | release i =>
    rw [step]
    split
    · next hheld => exact Move.release hheld
    · exact Move.stay

/-- What holds after any calls, and within one but for chapters whose book has no array yet. -/
structure WellKeptBut (loose : Set Nat) (s : RetainedObjects) : Prop where
  sound : Sound s.heap (s.fixed ++ s.held) []
  refs : ∀ i r, r ∈ s.heap.refs i → ∃ kind kind', s.heap.kind i = some kind ∧
    s.heap.kind r = some kind' ∧ MayRetain kind kind'
  /-- The chapters of a book retain just the book. -/
  book : ∀ b chapterMax a, s.heap.kind b = some (.bibleBook chapterMax) → a ∈ s.heap.refs b →
    (s.heap.refs a).length = chapterMax ∧ ∀ c ∈ s.heap.refs a, s.heap.refs c = [b]
  /-- A chapter is in the array of a book. -/
  chapter : ∀ c number, s.heap.kind c = some (.bibleChapter number) →
    c ∈ loose ∨ ∃ b a, a ∈ s.heap.refs b ∧ c ∈ s.heap.refs a
  engine : ∀ i kind r, s.heap.kind i = some kind → kind.engineObject = some r → r < s.next
  owner : ∀ i j kind kind' r, s.heap.kind i = some kind → s.heap.kind j = some kind' →
    kind.deletes = some r → kind'.deletes = some r → i = j
  fixed : ∀ m ∈ s.fixed, ∃ kind, s.heap.kind m = some kind ∧ kind.StaysFixed

abbrev WellKept (s : RetainedObjects) : Prop := WellKeptBut ∅ s

theorem wellKept_initial : WellKept initial where
  sound := Heap.empty_sound
  refs _ _ h := nomatch h
  book _ _ _ h := nomatch h
  chapter _ _ h := nomatch h
  engine _ _ _ h := nomatch h
  owner _ _ _ _ _ h := nomatch h
  fixed _ h := nomatch h

theorem lt_new_of_kind {kind : RetainedObject} (h : s.heap.kind i = some kind) : i < s.new := by
  rw [Heap.kind, Option.map_eq_some_iff] at h
  obtain ⟨o, ho, -⟩ := h
  exact (List.getElem?_eq_some_iff.mp ho).1

/-- A state that differs in who holds what. -/
theorem WellKeptBut.of_heap (h : WellKeptBut loose s)
    (hsound : Sound s'.heap (s'.fixed ++ s'.held) [])
    (hrefs : ∀ i, s'.heap.refs i = s.heap.refs i) (hkind : ∀ i, s'.heap.kind i = s.heap.kind i)
    (hfixed : ∀ m ∈ s'.fixed, ∃ kind, s.heap.kind m = some kind ∧ kind.StaysFixed)
    (hnext : s'.next = s.next) : WellKeptBut loose s' where
  sound := hsound
  refs i r hr := by
    rw [hrefs] at hr
    simp only [hkind]
    exact h.refs i r hr
  book b chapterMax a hb ha := by
    rw [hkind] at hb
    rw [hrefs] at ha ⊢
    simp only [hrefs]
    exact h.book b chapterMax a hb ha
  chapter c number hc := by
    rw [hkind] at hc
    simp only [hrefs]
    exact h.chapter c number hc
  engine i kind r hi := by
    rw [hkind] at hi
    rw [hnext]
    exact h.engine i kind r hi
  owner i j kind kind' r hi hj := by
    rw [hkind] at hi hj
    exact h.owner i j kind kind' r hi hj
  fixed m hm := by
    rw [hkind]
    exact hfixed m hm

theorem WellKept.setDefault (h : WellKept s) (m : Nat) :
    WellKept { s with defaultInstance := some m } :=
  h.of_heap h.sound (fun _ => rfl) (fun _ => rfl) h.fixed rfl

theorem WellKept.retain (h : WellKept s) (halive : s.Alive i) :
    WellKept { s with heap := s.heap.retain i, held := i :: s.held } := by
  refine h.of_heap ?_ (s.heap.refs_recount i _) (s.heap.kind_retain i) h.fixed rfl
  exact (h.sound.retain halive).perm List.perm_middle.symm

/-- A book whose chapters were made, with them and their array. -/
def circle (s : RetainedObjects) (b a : Nat) : Set Nat := {i | i = b ∨ i = a ∨ i ∈ s.heap.refs a}

theorem WellKeptBut.alive_of_mem (h : WellKeptBut loose s) (hij : j ∈ s.heap.refs i) : s.Alive j :=
  (h.sound.alive_iff j).mpr (Or.inr ⟨i, hij⟩)

/-- These retain each other. -/
theorem WellKeptBut.selfKept (h : WellKeptBut loose s) {b a c : Nat} (ha : a ∈ s.heap.refs b)
    (hc : c ∈ s.heap.refs a) (hb : s.heap.refs c = [b]) : SelfKept s.heap (s.circle b a) := by
  have hbc : b ∈ s.heap.refs c := hb ▸ List.mem_singleton_self b
  constructor
  · rintro i (rfl | rfl | hi)
    · exact h.alive_of_mem hbc
    · exact h.alive_of_mem ha
    · exact h.alive_of_mem hi
  · rintro i (rfl | rfl | hi)
    · exact ⟨c, Or.inr (Or.inr hc), hbc⟩
    · exact ⟨b, Or.inl rfl, ha⟩
    · exact ⟨a, Or.inr (Or.inl rfl), hi⟩

/-- A book retains an array. -/
theorem WellKeptBut.array_of_book (h : WellKeptBut loose s) {b a chapterMax : Nat}
    (hb : s.heap.kind b = some (.bibleBook chapterMax)) (ha : a ∈ s.heap.refs b) :
    s.heap.kind a = some .array := by
  obtain ⟨_, _, hb', harray, hretain⟩ := h.refs b a ha
  rw [hb] at hb'
  cases hb'
  cases hretain
  exact harray

/-- Who retains an array with a chapter in it is the book of the chapter. -/
theorem WellKeptBut.refs_chapter (h : WellKeptBut loose s) {b a c number : Nat}
    (hc : s.heap.kind c = some (.bibleChapter number)) (ha : a ∈ s.heap.refs b)
    (hca : c ∈ s.heap.refs a) :
    (∃ chapterMax, s.heap.kind b = some (.bibleBook chapterMax)) ∧ s.heap.refs c = [b] := by
  obtain ⟨kind, kind', ha', hc', hretain⟩ := h.refs a c hca
  rw [hc] at hc'
  cases hc'
  cases hretain
  obtain ⟨kind, kind', hb, ha'', hretain⟩ := h.refs b a ha
  rw [ha'] at ha''
  cases ha''
  cases hretain
  exact ⟨⟨_, hb⟩, (h.book b _ a hb ha).2 c hca⟩

/-- Releases keep all this. -/
theorem WellKept.release (h : WellKept s) (hheld : i ∈ s.held) :
    WellKept { s with heap := s.heap.release i, held := s.held.erase i } := by
  have hmem : i ∈ s.fixed ++ s.held := List.mem_append_right _ hheld
  have hperm : ((s.fixed ++ s.held).erase i).Perm (s.fixed ++ s.held.erase i) := by
    refine (List.perm_cons i).mp ((List.perm_cons_erase hmem).symm.trans ?_)
    exact ((List.perm_cons_erase hheld).append_left s.fixed).trans List.perm_middle
  have hsound : Sound (s.heap.release i) (s.fixed ++ s.held.erase i) [] :=
    (h.sound.release hmem).perm hperm
  have hshrinks : Shrinks s.heap (s.heap.release i) := Shrinks.releases s.heap [i]
  have hrefs : ∀ j r, r ∈ (s.heap.release i).refs j →
      (s.heap.release i).refs j = s.heap.refs j := fun j r hr =>
    (hshrinks.alive j (hsound.alive_of_mem hr)).2
  constructor
  · exact hsound
  · intro j r hr
    show ∃ kind kind', (s.heap.release i).kind j = _ ∧ (s.heap.release i).kind r = _ ∧ _
    rw [hshrinks.kind, hshrinks.kind]
    exact h.refs j r (hrefs j r hr ▸ hr)
  · intro b chapterMax a hb ha
    have hb' : s.heap.kind b = some (.bibleBook chapterMax) := (hshrinks.kind b).symm.trans hb
    have ha' : a ∈ s.heap.refs b := hrefs b a ha ▸ ha
    have halive : ∀ x y, x ∈ (s.heap.release i).refs y →
        (s.heap.release i).refs x = s.heap.refs x := fun x y hx =>
      (hshrinks.alive x ((hsound.alive_iff x).mpr (Or.inr ⟨y, hx⟩))).2
    have hsame : (s.heap.release i).refs a = s.heap.refs a := halive a b ha
    obtain ⟨hlength, hchapters⟩ := h.book b chapterMax a hb' ha'
    refine ⟨(congrArg List.length hsame).trans hlength, fun c hc => ?_⟩
    exact (halive c a hc).trans (hchapters c (hsame ▸ hc))
  · intro c number hc
    have hc' : s.heap.kind c = some (.bibleChapter number) := (hshrinks.kind c).symm.trans hc
    obtain ⟨b, a, ha, hca⟩ := (h.chapter c number hc').resolve_left fun hc => hc
    have hkept := (h.selfKept ha hca (h.refs_chapter hc' ha hca).2).release h.sound hmem
    have hb := (hshrinks.alive b (hkept.alive b (Or.inl rfl))).2
    have ha' := (hshrinks.alive a (hkept.alive a (Or.inr (Or.inl rfl)))).2
    exact Or.inr ⟨b, a, hb ▸ ha, ha' ▸ hca⟩
  · intro j kind r hj
    exact h.engine j kind r ((hshrinks.kind j).symm.trans hj)
  · intro j k kind kind' r hj hk
    exact h.owner j k kind kind' r ((hshrinks.kind j).symm.trans hj)
      ((hshrinks.kind k).symm.trans hk)
  · intro m hm
    obtain ⟨kind, hm, hfixed⟩ := h.fixed m hm
    exact ⟨kind, (hshrinks.kind m).trans hm, hfixed⟩

/-! ## Objects are made -/

theorem WellKeptBut.mono {loose' : Set Nat} (h : WellKeptBut loose s) (hsub : loose ⊆ loose') :
    WellKeptBut loose' s :=
  { h with chapter := fun c number hc => (h.chapter c number hc).imp_left (@hsub c) }

/-- The chapters have all come to a book. -/
theorem WellKeptBut.close (h : WellKeptBut loose s)
    (hloose : ∀ c ∈ loose, ∃ b a, a ∈ s.heap.refs b ∧ c ∈ s.heap.refs a) : WellKept s :=
  { h with chapter := fun c number hc => Or.inr ((h.chapter c number hc).elim (hloose c) id) }

theorem refs_new (s : RetainedObjects) : s.heap.refs s.new = [] := by
  rw [Heap.refs, new, List.getElem?_eq_none (Nat.le_refl _)]
  rfl

/-- Nobody retains an object that is not made yet. -/
theorem WellKeptBut.ne_new_of_mem (h : WellKeptBut loose s) (hj : j ∈ s.heap.refs i) :
    j ≠ s.new := by
  obtain ⟨_, _, -, hkind, -⟩ := h.refs i j hj
  exact Nat.ne_of_lt (lt_new_of_kind hkind)

theorem kind_alloc_of_some {kind kind' : RetainedObject} (h : s.heap.kind i = some kind') :
    (s.heap.alloc kind).kind i = some kind' := by
  have hne : i ≠ s.heap.objects.length := Nat.ne_of_lt (lt_new_of_kind h)
  rw [Heap.kind_alloc, if_neg hne, h]

/-- One object more, which retains nothing yet. -/
theorem WellKeptBut.make (h : WellKeptBut loose s) {kind : RetainedObject} (next : Ref)
    (hle : s.next ≤ next) (hlt : ∀ r, kind.engineObject = some r → r < next)
    (howner : ∀ r, kind.deletes = some r → s.next ≤ r)
    (hchapter : ∀ number, kind = .bibleChapter number → s.new ∈ loose) :
    WellKeptBut loose ({ s with next := next }.make kind) := by
  have hkind : ∀ j kind', ({ s with next := next }.make kind).heap.kind j = some kind' →
      j = s.new ∧ kind = kind' ∨ s.heap.kind j = some kind' := by
    intro j kind' hj
    rw [RetainedObjects.make, Heap.kind_alloc] at hj
    split at hj
    · next hnew => exact Or.inl ⟨hnew, Option.some_inj.mp hj⟩
    · exact Or.inr hj
  have hrefs : ∀ j, ({ s with next := next }.make kind).heap.refs j = s.heap.refs j :=
    s.heap.refs_alloc kind
  -- an older object names an older engine object
  have hold : ∀ j kind' r, s.heap.kind j = some kind' → kind'.deletes = some r → r < s.next :=
    fun j kind' r hj hr => h.engine j kind' r hj (engineObject_of_deletes hr)
  constructor
  · exact (h.sound.alloc kind).perm List.perm_middle.symm
  · intro j r hr
    rw [hrefs] at hr
    obtain ⟨kj, kr, hj, hr, hretain⟩ := h.refs j r hr
    exact ⟨kj, kr, kind_alloc_of_some hj, kind_alloc_of_some hr, hretain⟩
  · intro b chapterMax a hb ha
    rw [hrefs] at ha ⊢
    simp only [hrefs]
    rcases hkind b _ hb with ⟨rfl, -⟩ | hb
    · rw [refs_new] at ha
      cases ha
    · exact h.book b chapterMax a hb ha
  · intro c number hc
    simp only [hrefs]
    rcases hkind c _ hc with ⟨rfl, heq⟩ | hc
    · exact Or.inl (hchapter number heq)
    · exact h.chapter c number hc
  · intro j kind' r hj hr
    rcases hkind j _ hj with ⟨-, rfl⟩ | hj
    · exact hlt r hr
    · exact Nat.lt_of_lt_of_le (h.engine j kind' r hj hr) hle
  · intro j k kj kk r hj hk hrj hrk
    rcases hkind j _ hj with ⟨rfl, rfl⟩ | hj <;> rcases hkind k _ hk with ⟨rfl, rfl⟩ | hk
    · rfl
    · exact absurd (hold k kk r hk hrk) (Nat.not_lt.mpr (howner r hrj))
    · exact absurd (hold j kj r hj hrj) (Nat.not_lt.mpr (howner r hrk))
    · exact h.owner j k kj kk r hj hk hrj hrk
  · intro m hm
    obtain ⟨kind, hm, hfixed⟩ := h.fixed m hm
    exact ⟨kind, kind_alloc_of_some hm, hfixed⟩

/-- An object retains another one. -/
theorem WellKeptBut.keep (h : WellKeptBut loose s) {r : Nat} {ki kr : RetainedObject}
    (hi : s.object i = some ki) (hr : s.object r = some kr) (hretain : MayRetain ki kr)
    (hbook : ∀ b chapterMax a, s.heap.kind b = some (.bibleBook chapterMax) →
      a ∈ (s.heap.keep i r).refs b → ((s.heap.keep i r).refs a).length = chapterMax ∧
        ∀ c ∈ (s.heap.keep i r).refs a, (s.heap.keep i r).refs c = [b]) :
    WellKeptBut loose { s with heap := s.heap.keep i r } := by
  obtain ⟨hialive, hikind⟩ := object_eq hi
  obtain ⟨hralive, hrkind⟩ := object_eq hr
  have hmono : ∀ x y, x ∈ s.heap.refs y → x ∈ (s.heap.keep i r).refs y := by
    intro x y hx
    rw [Heap.refs_keep hialive]
    split
    · next heq => exact List.mem_cons_of_mem _ (heq ▸ hx)
    · exact hx
  constructor
  · exact h.sound.keep hialive hralive
  · intro j x hx
    show ∃ kind kind', (s.heap.keep i r).kind j = _ ∧ (s.heap.keep i r).kind x = _ ∧ _
    rw [Heap.kind_keep, Heap.kind_keep]
    rw [Heap.refs_keep hialive] at hx
    split at hx
    · next heq =>
      rcases List.mem_cons.mp hx with rfl | hx
      · exact ⟨ki, kr, heq ▸ hikind, hrkind, hretain⟩
      · exact heq ▸ h.refs i x hx
    · exact h.refs j x hx
  · intro b chapterMax a hb ha
    exact hbook b chapterMax a ((Heap.kind_keep ..).symm.trans hb) ha
  · intro c number hc
    refine (h.chapter c number ((Heap.kind_keep ..).symm.trans hc)).imp_right ?_
    rintro ⟨b, a, ha, hca⟩
    exact ⟨b, a, hmono a b ha, hmono c a hca⟩
  · intro j kind x hj
    exact h.engine j kind x ((Heap.kind_keep ..).symm.trans hj)
  · intro j k kj kk x hj hk
    exact h.owner j k kj kk x ((Heap.kind_keep ..).symm.trans hj)
      ((Heap.kind_keep ..).symm.trans hk)
  · intro m hm
    obtain ⟨kind, hm, hfixed⟩ := h.fixed m hm
    exact ⟨kind, (Heap.kind_keep ..).trans hm, hfixed⟩

theorem object_of_kind {kind : RetainedObject} (halive : s.Alive i)
    (hkind : s.heap.kind i = some kind) : s.object i = some kind := by
  rw [object, if_pos halive, hkind]

theorem object_make_new (s : RetainedObjects) (kind : RetainedObject) :
    (s.make kind).object s.new = some kind := by
  refine object_of_kind ?_ ?_
  · show (s.heap.alloc kind).count s.heap.objects.length ≠ 0
    rw [Heap.count_alloc, if_pos rfl]
    exact Nat.one_ne_zero
  · show (s.heap.alloc kind).kind s.heap.objects.length = some kind
    rw [Heap.kind_alloc, if_pos rfl]

theorem ne_new_of_object {kind : RetainedObject} (h : s.object i = some kind) : i ≠ s.new :=
  Nat.ne_of_lt (lt_new_of_kind (object_eq h).2)

theorem object_make {kind kind' : RetainedObject} (h : s.object i = some kind') :
    (s.make kind).object i = some kind' := by
  obtain ⟨halive, hkind⟩ := object_eq h
  refine object_of_kind ?_ (kind_alloc_of_some hkind)
  have hne : i ≠ s.heap.objects.length := ne_new_of_object h
  show (s.heap.alloc kind).count i ≠ 0
  rw [Heap.count_alloc, if_neg hne]
  exact halive

theorem object_keep {r : Nat} {kind kind' : RetainedObject} (hr : s.object r = some kind')
    (h : s.object j = some kind) :
    ({ s with heap := s.heap.keep i r } : RetainedObjects).object j = some kind := by
  obtain ⟨halive, hkind⟩ := object_eq h
  refine object_of_kind ?_ ((Heap.kind_keep ..).trans hkind)
  show (s.heap.keep i r).count j ≠ 0
  rw [Heap.count_keep, Heap.retain, Heap.count_recount (object_eq hr).1]
  split
  · exact Nat.succ_ne_zero _
  · exact halive

/-- One object more that is never let go. -/
theorem WellKept.makeFixed (h : WellKept s) {kind : RetainedObject} {next : Ref}
    (hmade : s.MadeAt kind next) (hfixed : kind.StaysFixed) :
    WellKept ({ s with next := next }.makeFixed kind) := by
  have hmake : WellKept ({ s with next := next }.make kind) :=
    h.make next hmade.next_le hmade.lt_next hmade.owner fun number heq =>
      absurd heq (hmade.not_chapter number)
  refine hmake.of_heap (hmake.sound.perm List.perm_middle) (fun _ => rfl) (fun _ => rfl) ?_ rfl
  intro m hm
  rcases List.mem_cons.mp hm with rfl | hm
  · exact ⟨kind, (object_eq (object_make_new _ _)).2, hfixed⟩
  · exact hmake.fixed m hm

theorem WellKept.makeDefault (h : WellKept s) : WellKept
    { s.newEngineObject.makeFixed (.manager s.next true) with defaultInstance := some s.new } := by
  have hmade : s.MadeAt (.manager s.next true) (s.next + 1) := by
    refine ⟨Nat.le_succ _, fun r hr => ?_, fun r hr => ?_, nofun⟩
    · cases hr
      exact Nat.lt_succ_self _
    · cases hr
      exact Nat.le_refl _
  exact (h.makeFixed hmade (.manager _)).setDefault _

theorem WellKept.keepBooks (h : WellKept s) (chapterMaxs : List Nat) :
    WellKept (chapterMaxs.foldl (fun s chapterMax => s.makeFixed (.bibleBook chapterMax)) s) :=
  List.foldlRecOn chapterMaxs _ h fun s h chapterMax _ => by
    have hmade : s.MadeAt (.bibleBook chapterMax) s.next := ⟨Nat.le_refl _, nofun, nofun, nofun⟩
    exact h.makeFixed hmade (.bibleBook chapterMax)

/-- One object more, which retains another one. -/
theorem WellKeptBut.makeOn (h : WellKeptBut loose s) {kind kind' : RetainedObject} {r : Nat}
    (hr : s.object r = some kind') (hretain : MayRetain kind kind')
    (hlt : ∀ x, kind.engineObject = some x → x < s.next) (hdeletes : kind.deletes = none)
    (hbook : ∀ chapterMax, kind ≠ .bibleBook chapterMax)
    (hchapter : ∀ number, kind = .bibleChapter number → s.new ∈ loose) :
    WellKeptBut loose (s.makeOn kind r) := by
  have hmake : WellKeptBut loose (s.make kind) :=
    h.make s.next (Nat.le_refl _) hlt (by rw [hdeletes]; exact nofun) hchapter
  refine hmake.keep (object_make_new s kind) (object_make hr) hretain fun b chapterMax a hb ha => ?_
  have hnew := (object_eq (object_make_new s kind))
  have hrefs : ∀ x, x ≠ s.new →
      ((s.make kind).heap.keep s.new r).refs x = (s.make kind).heap.refs x := fun x hx => by
    rw [Heap.refs_keep hnew.1, if_neg hx]
  -- none of these is the new object, which nobody retains
  have hold : ∀ x y, x ∈ (s.make kind).heap.refs y → x ≠ s.new := fun x y hx =>
    h.ne_new_of_mem (s.heap.refs_alloc kind y ▸ hx)
  have hb' : b ≠ s.new := by
    rintro rfl
    rw [hnew.2] at hb
    exact hbook _ (Option.some_inj.mp hb)
  rw [hrefs b hb'] at ha
  obtain ⟨hlength, hchapters⟩ := hmake.book b chapterMax a hb ha
  rw [hrefs a (hold a b ha)]
  refine ⟨hlength, fun c hc => ?_⟩
  rw [hrefs c (hold c a hc)]
  exact hchapters c hc

/-! ## The chapters of a book -/

/-- The loop of `chapters` after some chapters: all are in the array, which no book has yet. -/
structure Filling (s : RetainedObjects) (b chapterMax a made : Nat) : Prop where
  kept : WellKeptBut {c | c ∈ s.heap.refs a} s
  book : s.object b = some (.bibleBook chapterMax)
  unasked : s.heap.refs b = []
  isArray : s.object a = some .array
  free : ∀ x, a ∉ s.heap.refs x
  length : (s.heap.refs a).length = made
  chapters : ∀ c ∈ s.heap.refs a, s.heap.refs c = [b]

variable {b chapterMax a made : Nat}

theorem ne_of_kind {kind kind' : RetainedObject} (hi : s.object i = some kind)
    (hj : s.object j = some kind') (hne : kind ≠ kind') : i ≠ j := by
  rintro rfl
  rw [hi] at hj
  exact hne (Option.some_inj.mp hj)

theorem refs_makeOn {kind : RetainedObject} {r : Nat} (x : Nat) :
    (s.makeOn kind r).heap.refs x = if x = s.new then [r] else s.heap.refs x := by
  have halive : (s.heap.alloc kind).count s.new ≠ 0 := (object_eq (object_make_new s kind)).1
  show ((s.heap.alloc kind).keep s.new r).refs x = _
  rw [Heap.refs_keep halive, Heap.refs_alloc, Heap.refs_alloc]
  split
  · rw [refs_new]
  · rfl

theorem object_makeOn (kind : RetainedObject) {kind' kind'' : RetainedObject} {r : Nat}
    (hr : s.object r = some kind') (h : s.object i = some kind'') :
    (s.makeOn kind r).object i = some kind'' :=
  object_keep (s := s.make kind) (object_make hr) (object_make h)

theorem object_makeOn_new (kind : RetainedObject) {kind' : RetainedObject} {r : Nat}
    (hr : s.object r = some kind') :
    (s.makeOn kind r).object s.new = some kind :=
  object_keep (s := s.make kind) (object_make hr) (object_make_new s kind)

theorem kind_addChapter (s : RetainedObjects) (b a number x : Nat) :
    (s.addChapter b a number).heap.kind x =
      if x = s.new then some (.bibleChapter number) else s.heap.kind x := by
  show (((s.heap.alloc (.bibleChapter number)).keep s.new b).keep a s.new).kind x = _
  rw [Heap.kind_keep, Heap.kind_keep, Heap.kind_alloc]
  rfl

theorem Filling.refs_addChapter (h : Filling s b chapterMax a made) (number x : Nat) :
    (s.addChapter b a number).heap.refs x =
      if x = a then s.new :: s.heap.refs a else if x = s.new then [b] else s.heap.refs x := by
  have harray := object_makeOn (.bibleChapter number) h.book h.isArray
  show ((s.makeOn (.bibleChapter number) b).heap.keep a s.new).refs x = _
  rw [Heap.refs_keep (object_eq harray).1, refs_makeOn, refs_makeOn,
    if_neg (ne_new_of_object h.isArray)]

theorem Filling.addChapter (h : Filling s b chapterMax a made) (number : Nat) :
    Filling (s.addChapter b a number) b chapterMax a (made + 1) := by
  have hmade := (h.kept.mono (Set.subset_insert s.new _)).makeOn
    h.book (.bibleChapter number chapterMax) nofun rfl nofun
    fun _ _ => Set.mem_insert _ _
  have harray := object_makeOn (.bibleChapter number) h.book h.isArray
  have hbook := object_makeOn (.bibleChapter number) h.book h.book
  have hchapter := object_makeOn_new (.bibleChapter number) h.book
  have hne : a ≠ s.new := ne_new_of_object h.isArray
  have hrefs := h.refs_addChapter number
  -- the array is in no book
  have hfree : ∀ x, a ∉ (s.makeOn (.bibleChapter number) b).heap.refs x := by
    intro x hx
    rw [refs_makeOn] at hx
    split at hx
    · exact ne_of_kind h.isArray h.book nofun (List.mem_singleton.mp hx)
    · exact h.free x hx
  have hkept : WellKeptBut (insert s.new {c | c ∈ s.heap.refs a}) (s.addChapter b a number) := by
    refine hmade.keep harray hchapter (.array number) fun b' chapterMax' a' hb' ha' => ?_
    have hkeep : ∀ x, x ≠ a → ((s.makeOn (.bibleChapter number) b).heap.keep a s.new).refs x =
        (s.makeOn (.bibleChapter number) b).heap.refs x := fun x hx => by
      rw [Heap.refs_keep (object_eq harray).1, if_neg hx]
    have hneArray : ∀ x y, x ∈ (s.makeOn (.bibleChapter number) b).heap.refs y → x ≠ a :=
      fun x y hx heq => hfree y (heq ▸ hx)
    have hb'' : b' ≠ a := by
      rintro rfl
      rw [(object_eq harray).2] at hb'
      cases hb'
    rw [hkeep b' hb''] at ha'
    obtain ⟨hlength, hchapters⟩ := hmade.book b' chapterMax' a' hb' ha'
    rw [hkeep a' (hneArray a' b' ha')]
    refine ⟨hlength, fun c hc => ?_⟩
    rw [hkeep c (hneArray c a' hc)]
    exact hchapters c hc
  constructor
  · have hloose : {c | c ∈ (s.addChapter b a number).heap.refs a} =
        insert s.new {c | c ∈ s.heap.refs a} := by
      rw [hrefs, if_pos rfl]
      ext c
      exact List.mem_cons
    rw [hloose]
    exact hkept
  · exact object_keep hchapter hbook
  · rw [hrefs, if_neg (ne_of_kind h.book h.isArray nofun), if_neg (ne_new_of_object h.book)]
    exact h.unasked
  · exact object_keep hchapter harray
  · intro x hx
    rw [hrefs] at hx
    split at hx
    · rcases List.mem_cons.mp hx with heq | hx
      · exact hne heq
      · exact h.free a hx
    · exact hfree x (by rw [refs_makeOn]; exact hx)
  · rw [hrefs, if_pos rfl, List.length_cons, h.length]
  · intro c hc
    rw [hrefs, if_pos rfl] at hc
    rcases List.mem_cons.mp hc with rfl | hc
    · rw [hrefs, if_neg (Ne.symm hne), if_pos rfl]
    · have hca : c ≠ a := fun heq => h.free a (heq ▸ hc)
      rw [hrefs, if_neg hca, if_neg (h.kept.ne_new_of_mem hc)]
      exact h.chapters c hc

theorem Filling.addChapters (h : Filling s b chapterMax a 0) (n : Nat) :
    Filling ((List.range n).foldl (fun s i => s.addChapter b a (i + 1)) s)
      b chapterMax a n := by
  induction n with
  | zero => exact h
  | succ n ih =>
    rw [List.range_succ, List.foldl_append]
    exact ih.addChapter (n + 1)

/-- The book retains the array. -/
theorem Filling.close (h : Filling s b chapterMax a chapterMax) :
    WellKept { s with heap := s.heap.keep b a } := by
  have hbook := object_eq h.book
  have hkeep : ∀ x, (s.heap.keep b a).refs x = if x = b then [a] else s.heap.refs x := fun x => by
    rw [Heap.refs_keep hbook.1, h.unasked]
  -- only chapters retain the book
  have hne : ∀ x y kind, y ∈ s.heap.refs x → s.heap.kind x = some kind →
      (∀ number, kind ≠ .bibleChapter number) → y ≠ b := by
    rintro x y kind hy hx hchapter rfl
    obtain ⟨kx, ky, hx', hb, hretain⟩ := h.kept.refs x y hy
    rw [hbook.2] at hb
    cases hb
    cases hretain
    rw [hx'] at hx
    exact hchapter _ (Option.some_inj.mp hx).symm
  have hab : a ≠ b := ne_of_kind h.isArray h.book nofun
  have hkept : WellKeptBut {c | c ∈ s.heap.refs a} { s with heap := s.heap.keep b a } := by
    refine h.kept.keep h.book h.isArray (.bibleBook chapterMax) fun b' chapterMax' a' hb' ha' => ?_
    have ha'' : a' ≠ b ∧ (s.heap.refs a').length = chapterMax' ∧
        ∀ c ∈ s.heap.refs a', c ≠ b ∧ s.heap.refs c = [b'] := by
      rw [hkeep] at ha'
      split at ha'
      · next heq =>
        rw [heq, hbook.2] at hb'
        cases hb'
        rw [List.mem_singleton.mp ha', heq]
        exact ⟨hab, h.length, fun c hc =>
          ⟨hne a c _ hc (object_eq h.isArray).2 nofun, h.chapters c hc⟩⟩
      · obtain ⟨hlength, hchapters⟩ := h.kept.book b' chapterMax' a' hb' ha'
        have harray := h.kept.array_of_book hb' ha'
        exact ⟨hne b' a' _ ha' hb' nofun, hlength, fun c hc =>
          ⟨hne a' c _ hc harray nofun, hchapters c hc⟩⟩
    rw [hkeep a', if_neg ha''.1]
    refine ⟨ha''.2.1, fun c hc => ?_⟩
    rw [hkeep c, if_neg (ha''.2.2 c hc).1]
    exact (ha''.2.2 c hc).2
  refine hkept.close fun c hc => ⟨b, a, ?_, ?_⟩
  · show a ∈ (s.heap.keep b a).refs b
    rw [hkeep, if_pos rfl]
    exact List.mem_singleton_self a
  · show c ∈ (s.heap.keep b a).refs a
    rw [hkeep, if_neg hab]
    exact hc

/-- The array is made first. -/
theorem WellKept.filling (h : WellKept s) (hb : s.object b = some (.bibleBook chapterMax))
    (hnone : s.heap.refs b = []) : Filling (s.make .array) b chapterMax s.new 0 := by
  have hrefs : ∀ x, (s.make .array).heap.refs x = s.heap.refs x := s.heap.refs_alloc .array
  have hempty : {c | c ∈ (s.make .array).heap.refs s.new} = (∅ : Set Nat) := by
    ext c
    simp [hrefs, refs_new]
  constructor
  · rw [hempty]
    refine h.make s.next (Nat.le_refl _) (fun r hr => ?_) (fun r hr => ?_) fun number heq => ?_
    · cases hr
    · cases hr
    · cases heq
  · exact object_make hb
  · rw [hrefs, hnone]
  · exact object_make_new s .array
  · intro x hx
    rw [hrefs] at hx
    exact h.ne_new_of_mem hx rfl
  · rw [hrefs, refs_new]
    rfl
  · intro c hc
    rw [hrefs, refs_new] at hc
    cases hc

theorem WellKept.makeChapters (h : WellKept s) (hb : s.object b = some (.bibleBook chapterMax))
    (hnone : s.heap.refs b = []) : WellKept (s.makeChapters b chapterMax) :=
  ((h.filling hb hnone).addChapters chapterMax).close

/-! ## Any calls -/

theorem WellKept.move {call : ObjectCall} (h : WellKept s) (hmove : Move s call s') :
    WellKept s' := by
  cases hmove with
  | stay => exact h
  | setDefault => exact h.setDefault _
  | make hmade =>
    exact h.make _ hmade.next_le hmade.lt_next hmade.owner fun number heq =>
      absurd heq (hmade.not_chapter number)
  | makeDefault => exact h.makeDefault
  | keepBooks chapterMaxs => exact h.keepBooks chapterMaxs
  | makeOn hr hkind hobject =>
    cases hkind with
    | module swManager deleteSWMgr =>
      exact h.makeOn hr (.module _ _) (fun x hx => h.engine _ _ x (object_eq hr).2 hx) rfl nofun
        nofun
    | verseEnumerator sk created =>
      exact h.makeOn hr (.verseEnumerator _ _) (fun x hx => h.engine _ _ x (object_eq hr).2 hx) rfl
        nofun nofun
    | _ => exact absurd rfl hobject
  | makeChapters hb hnone => exact h.makeChapters hb hnone
  | retain halive => exact h.retain halive
  | release hheld => exact h.release hheld

theorem WellKept.step (h : WellKept s) (call : ObjectCall) : WellKept (s.step call) :=
  h.move (step_move h.engine call)

theorem WellKept.run (h : WellKept s) (calls : List ObjectCall) : WellKept (s.run calls) := by
  induction calls generalizing s with
  | nil => exact h
  | cons call calls ih => exact ih (h.step call)

end RetainedObjects

end ObjCSword
