import Mathlib.Data.List.Basic
import Mathlib.Data.List.Nodup
import Mathlib.Tactic.Cases

/-!
# Objects that count who retains them

An object is deallocated when its count of references comes to zero; it then releases what it
retains itself, and so on. A reference is held by the client, or by an object in one of its
properties, or it is pending: it is to be released when the call that runs comes to it.

The counts are right in every state (`Sound`), so an object is there exactly while the client or
another object refers to it (`Sound.alive_iff`), it is deallocated once, and objects that refer to
each other in a circle are never deallocated (`SelfKept.releases`).
-/

namespace Lib.RetainCount

variable {κ : Type}

/-- What it is, what it retains, and how often it is retained. -/
structure Object (κ : Type) where
  kind : κ
  refs : List Nat
  count : Nat

/-- The objects in the order they were made, with those that were deallocated since, and the latter
in the order of that. -/
structure Heap (κ : Type) where
  objects : List (Object κ)
  gone : List Nat

namespace Heap

def empty : Heap κ := ⟨[], []⟩

def count (h : Heap κ) (i : Nat) : Nat := (h.objects[i]?.map Object.count).getD 0

def refs (h : Heap κ) (i : Nat) : List Nat := (h.objects[i]?.map Object.refs).getD []

def kind (h : Heap κ) (i : Nat) : Option κ := h.objects[i]?.map Object.kind

/-- All references that objects have. -/
def pointed (h : Heap κ) : List Nat := h.objects.flatMap Object.refs

def modify (h : Heap κ) (i : Nat) (f : Object κ → Object κ) : Heap κ :=
  { h with objects := h.objects.modify i f }

/-- A new object, which retains nothing and is retained by who made it. -/
def alloc (h : Heap κ) (kind : κ) : Heap κ :=
  { h with objects := h.objects ++ [⟨kind, [], 1⟩] }

def recount (h : Heap κ) (i : Nat) (g : Nat → Nat) : Heap κ :=
  h.modify i fun o => { o with count := g o.count }

def retain (h : Heap κ) (i : Nat) : Heap κ := h.recount i fun n => n + 1

/-- An object retains another one in one of its properties. -/
def keep (h : Heap κ) (i r : Nat) : Heap κ :=
  (h.retain r).modify i fun o => { o with refs := r :: o.refs }

def dealloc (h : Heap κ) (i : Nat) : Heap κ :=
  { h.modify i (fun o => { o with refs := [], count := 0 }) with gone := h.gone ++ [i] }

/-- One reference less. If the object is deallocated by it, its references are to be released. -/
def releaseOnce (h : Heap κ) (i : Nat) : Heap κ × List Nat :=
  if h.count i = 0 then (h, [])
  else if h.count i = 1 then (h.dealloc i, h.refs i)
  else (h.recount i (fun n => n - 1), [])

/-- How many references there are in all. -/
def total (h : Heap κ) : Nat := h.objects.foldr (fun o n => o.count + n) 0

end Heap

theorem foldr_modify_lt {objects : List (Object κ)} {i : Nat} {o : Object κ}
    (ho : objects[i]? = some o) {f : Object κ → Object κ} (hf : (f o).count < o.count) :
    (objects.modify i f).foldr (fun o n => o.count + n) 0 <
      objects.foldr (fun o n => o.count + n) 0 := by
  induction objects generalizing i with
  | nil => cases ho
  | cons o' objects ih =>
    cases i with
    | zero =>
      cases ho
      exact Nat.add_lt_add_right hf _
    | succ i =>
      exact Nat.add_lt_add_left (ih (i := i) ho) _

namespace Heap

theorem object_of_count {h : Heap κ} {i : Nat} (hcount : h.count i ≠ 0) :
    ∃ o, h.objects[i]? = some o ∧ o.count = h.count i ∧ o.refs = h.refs i := by
  cases ho : h.objects[i]? with
  | none => simp [count, ho] at hcount
  | some o => exact ⟨o, rfl, by simp [count, ho], by simp [refs, ho]⟩

theorem total_releaseOnce (h : Heap κ) (i : Nat) :
    (h.releaseOnce i).1.total < h.total ∨ h.releaseOnce i = (h, []) := by
  unfold releaseOnce
  split
  · exact Or.inr rfl
  · next hzero =>
    obtain ⟨o, ho, hcount, -⟩ := object_of_count hzero
    left
    split
    · exact foldr_modify_lt ho (by simp only; omega)
    · exact foldr_modify_lt ho (by simp only; omega)

/-- The references are released one after the other, those of a deallocated object before the
others. -/
def releases (h : Heap κ) (pending : List Nat) : Heap κ :=
  match pending with
  | [] => h
  | i :: pending => releases (h.releaseOnce i).1 ((h.releaseOnce i).2 ++ pending)
termination_by (h.total, pending.length)
decreasing_by
  rcases total_releaseOnce h i with hlt | heq
  · exact Prod.Lex.left _ _ hlt
  · rw [heq]
    exact Prod.Lex.right _ (Nat.lt_succ_self _)

/-- The client releases an object. -/
def release (h : Heap κ) (i : Nat) : Heap κ := h.releases [i]

/-- What one release keeps, all of them keep. -/
theorem releases_induction {P : Heap κ → List Nat → Prop}
    (hstep : ∀ h i pending, P h (i :: pending) →
      P (h.releaseOnce i).1 ((h.releaseOnce i).2 ++ pending))
    {h : Heap κ} {pending : List Nat} (hp : P h pending) : P (h.releases pending) [] := by
  induction h, pending using releases.induct with
  | case1 h =>
    rw [releases]
    exact hp
  | case2 h i pending ih =>
    rw [releases]
    exact ih (hstep h i pending hp)

/-! ## What the operations change -/

section

variable {h : Heap κ} {i j : Nat} {f : Object κ → Object κ}

theorem count_modify_of_ne (hne : j ≠ i) : (h.modify i f).count j = h.count j := by
  rw [count, modify, List.getElem?_modify_ne _ _ hne.symm, count]

theorem refs_modify_of_ne (hne : j ≠ i) : (h.modify i f).refs j = h.refs j := by
  rw [refs, modify, List.getElem?_modify_ne _ _ hne.symm, refs]

theorem count_modify {o : Object κ} (ho : h.objects[i]? = some o) :
    (h.modify i f).count i = (f o).count := by
  rw [count, modify, List.getElem?_modify_eq, ho]
  rfl

theorem refs_modify {o : Object κ} (ho : h.objects[i]? = some o) :
    (h.modify i f).refs i = (f o).refs := by
  rw [refs, modify, List.getElem?_modify_eq, ho]
  rfl

/-- The references of one object are exchanged, those of the others stay. -/
theorem count_pointed_modify {o : Object κ} (ho : h.objects[i]? = some o) (j : Nat) :
    (h.modify i f).pointed.count j + o.refs.count j =
      h.pointed.count j + (f o).refs.count j := by
  obtain ⟨objects, gone⟩ := h
  show ((objects.modify i f).flatMap Object.refs).count j + _ =
    (objects.flatMap Object.refs).count j + _
  induction objects generalizing i with
  | nil => cases ho
  | cons o' objects ih =>
    cases i with
    | zero =>
      cases ho
      simp only [List.modify_zero_cons, List.flatMap_cons, List.count_append]
      omega
    | succ i =>
      have hrest := ih (i := i) ho
      simp only [List.modify_succ_cons, List.flatMap_cons, List.count_append]
      omega

theorem mem_pointed : j ∈ h.pointed ↔ ∃ i, j ∈ h.refs i := by
  rw [pointed, List.mem_flatMap]
  constructor
  · rintro ⟨o, ho, hj⟩
    obtain ⟨i, hi⟩ := List.getElem?_of_mem ho
    refine ⟨i, ?_⟩
    rw [refs, hi]
    exact hj
  · rintro ⟨i, hj⟩
    rw [refs] at hj
    cases ho : h.objects[i]? with
    | none =>
      rw [ho] at hj
      cases hj
    | some o =>
      rw [ho] at hj
      exact ⟨o, List.mem_of_getElem? ho, hj⟩

end

end Heap

/-- The counts are those of the references there are, what is gone has none, and nothing went
twice. -/
structure Sound (h : Heap κ) (held pending : List Nat) : Prop where
  balanced : ∀ i, h.count i = held.count i + pending.count i + h.pointed.count i
  empty : ∀ i, h.count i = 0 → h.refs i = []
  gone_iff : ∀ i, i ∈ h.gone ↔ i < h.objects.length ∧ h.count i = 0
  once : h.gone.Nodup

theorem Heap.empty_sound : Sound (Heap.empty : Heap κ) [] [] where
  balanced _ := rfl
  empty _ _ := rfl
  gone_iff i := by simp [Heap.empty]
  once := List.nodup_nil

/-- An object that was released to be deallocated. -/
theorem Sound.deallocated {h : Heap κ} {held pending : List Nat} {i : Nat}
    (hs : Sound h held (i :: pending)) (hone : h.count i = 1) :
    Sound (h.dealloc i) held (h.refs i ++ pending) := by
  obtain ⟨o, ho, -, hrefs⟩ := Heap.object_of_count (h := h) (i := i) (by omega)
  have hlength : i < h.objects.length := (List.getElem?_eq_some_iff.mp ho).1
  have hcount : ∀ j, (h.modify i fun o => { o with refs := [], count := 0 }).count j =
      if j = i then 0 else h.count j := by
    intro j
    split
    · next heq => rw [heq, Heap.count_modify ho]
    · next hne => rw [Heap.count_modify_of_ne hne]
  constructor
  · intro j
    have hbalanced := hs.balanced j
    have hpointed :=
      Heap.count_pointed_modify (f := fun o => { o with refs := [], count := 0 }) ho j
    rw [hrefs, List.count_nil, Nat.add_zero] at hpointed
    have hnew := hcount j
    rw [List.count_append]
    show (h.modify i fun o => { o with refs := [], count := 0 }).count j = held.count j + _ +
      (h.modify i fun o => { o with refs := [], count := 0 }).pointed.count j
    by_cases hj : j = i
    · rw [if_pos hj] at hnew
      rw [hj, List.count_cons_self] at hbalanced
      rw [hj] at hpointed hnew ⊢
      omega
    · rw [if_neg hj] at hnew
      rw [List.count_cons_of_ne (Ne.symm hj)] at hbalanced
      omega
  · intro j hzero
    by_cases hj : j = i
    · rw [hj]
      exact Heap.refs_modify ho
    · refine (Heap.refs_modify_of_ne hj).trans (hs.empty j ?_)
      rw [← Heap.count_modify_of_ne hj]
      exact hzero
  · intro j
    show j ∈ h.gone ++ [i] ↔ j < (h.objects.modify i _).length ∧ (h.modify i _).count j = 0
    rw [List.mem_append, List.mem_singleton, hs.gone_iff, List.length_modify, hcount]
    by_cases hj : j = i
    · simp only [hj, hlength, if_true, true_and, or_true]
    · simp only [hj, if_false, or_false]
  · refine List.Nodup.append hs.once (List.nodup_singleton i) ?_
    rw [List.disjoint_singleton]
    intro hmem
    have hzero := ((hs.gone_iff i).mp hmem).2
    omega

/-- The counts of objects that are not deallocated are changed. -/
theorem Sound.of_count {h h' : Heap κ} {held held' pending pending' : List Nat}
    (hs : Sound h held pending) (hlength : h'.objects.length = h.objects.length)
    (hrefs : ∀ j, h'.refs j = h.refs j) (hpointed : h'.pointed = h.pointed)
    (hgone : h'.gone = h.gone) (hzero : ∀ j, h'.count j = 0 ↔ h.count j = 0)
    (hbalanced : ∀ j, h'.count j + (held.count j + pending.count j) =
      h.count j + (held'.count j + pending'.count j)) : Sound h' held' pending' := by
  refine ⟨fun j => ?_, fun j hj => ?_, fun j => ?_, ?_⟩
  · have hold := hs.balanced j
    have hnew := hbalanced j
    rw [hpointed]
    omega
  · rw [hrefs]
    exact hs.empty j ((hzero j).mp hj)
  · rw [hgone, hs.gone_iff, hlength, hzero]
  · rw [hgone]
    exact hs.once

/-- A count is changed, and nothing else. -/
theorem Heap.refs_recount (h : Heap κ) (i : Nat) (g : Nat → Nat) (j : Nat) :
    (h.recount i g).refs j = h.refs j := by
  rw [recount]
  by_cases hj : j = i
  · rw [hj]
    cases ho : h.objects[i]? with
    | none => simp [Heap.refs, Heap.modify, ho]
    | some o => rw [Heap.refs_modify ho, Heap.refs, ho]; rfl
  · exact Heap.refs_modify_of_ne hj

theorem Heap.pointed_recount (h : Heap κ) (i : Nat) (g : Nat → Nat) :
    (h.recount i g).pointed = h.pointed := by
  obtain ⟨objects, gone⟩ := h
  show (objects.modify i _).flatMap Object.refs = objects.flatMap Object.refs
  induction objects generalizing i with
  | nil => rw [List.modify_nil]
  | cons o objects ih =>
    cases i with
    | zero => rfl
    | succ i => rw [List.modify_succ_cons, List.flatMap_cons, ih, List.flatMap_cons]

theorem Heap.count_recount {h : Heap κ} {i : Nat} (hi : h.count i ≠ 0) (g : Nat → Nat) (j : Nat) :
    (h.recount i g).count j = if j = i then g (h.count i) else h.count j := by
  obtain ⟨o, ho, hcount, -⟩ := Heap.object_of_count hi
  split
  · next heq => rw [heq, recount, Heap.count_modify ho, hcount]
  · next hne => rw [recount, Heap.count_modify_of_ne hne]

theorem Sound.releaseOnce {h : Heap κ} {held pending : List Nat} {i : Nat}
    (hs : Sound h held (i :: pending)) :
    Sound (h.releaseOnce i).1 held ((h.releaseOnce i).2 ++ pending) := by
  have hpositive : h.count i ≠ 0 := by
    have hcount := hs.balanced i
    rw [List.count_cons_self] at hcount
    omega
  rw [Heap.releaseOnce, if_neg hpositive]
  by_cases hone : h.count i = 1
  · rw [if_pos hone]
    exact hs.deallocated hone
  · rw [if_neg hone]
    have hcount := Heap.count_recount hpositive fun n => n - 1
    refine hs.of_count (List.length_modify ..) (h.refs_recount i _) (h.pointed_recount i _) rfl
      (fun j => ?_) fun j => ?_
    · rw [hcount]
      split
      · next heq =>
        rw [heq]
        omega
      · rfl
    · rw [hcount, List.nil_append]
      by_cases hj : j = i
      · rw [if_pos hj, hj, List.count_cons_self]
        omega
      · rw [if_neg hj, List.count_cons_of_ne (Ne.symm hj)]

theorem Sound.releases {h : Heap κ} {held pending : List Nat} (hs : Sound h held pending) :
    Sound (h.releases pending) held [] :=
  Heap.releases_induction (P := fun h pending => Sound h held pending)
    (fun _ _ _ hs => hs.releaseOnce) hs

/-- The order of the references does not matter. -/
theorem Sound.perm {h : Heap κ} {held held' pending : List Nat} (hs : Sound h held pending)
    (hperm : held.Perm held') : Sound h held' pending where
  balanced i := by
    rw [← hperm.count_eq]
    exact hs.balanced i
  empty := hs.empty
  gone_iff := hs.gone_iff
  once := hs.once

/-- A reference of the client is to be released. -/
theorem Sound.pend {h : Heap κ} {held : List Nat} (hs : Sound h held []) {i : Nat}
    (hi : i ∈ held) : Sound h (held.erase i) [i] := by
  refine hs.of_count rfl (fun _ => rfl) rfl rfl (fun _ => Iff.rfl) fun j => ?_
  by_cases hj : j = i
  · have hcount := List.count_pos_iff.mpr hi
    rw [hj, List.count_erase_self, List.count_cons_self, List.count_nil]
    omega
  · rw [List.count_erase_of_ne hj, List.count_cons_of_ne (Ne.symm hj)]

/-- The client gives up one of its references. -/
theorem Sound.release {h : Heap κ} {held : List Nat} (hs : Sound h held []) {i : Nat}
    (hi : i ∈ held) : Sound (h.release i) (held.erase i) [] := (hs.pend hi).releases

theorem Sound.retain {h : Heap κ} {held : List Nat} (hs : Sound h held []) {i : Nat}
    (hi : h.count i ≠ 0) : Sound (h.retain i) (i :: held) [] := by
  have hcount := Heap.count_recount hi fun n => n + 1
  refine hs.of_count (List.length_modify ..) (h.refs_recount i _) (h.pointed_recount i _) rfl
    (fun j => ?_) fun j => ?_
  · rw [Heap.retain, hcount]
    split
    · next heq =>
      rw [heq]
      omega
    · rfl
  · rw [Heap.retain, hcount]
    by_cases hj : j = i
    · rw [if_pos hj, hj, List.count_cons_self]
      omega
    · rw [if_neg hj, List.count_cons_of_ne (Ne.symm hj)]

theorem Heap.kind_modify {h : Heap κ} {i : Nat} {f : Object κ → Object κ}
    (hf : ∀ o, (f o).kind = o.kind) (j : Nat) : (h.modify i f).kind j = h.kind j := by
  rw [Heap.kind, Heap.modify, List.getElem?_modify, Option.map_eq_map, Option.map_map, Heap.kind]
  congr 1
  funext o
  dsimp only [Function.comp]
  split
  · exact hf o
  · rfl

theorem Heap.kind_retain (h : Heap κ) (i j : Nat) : (h.retain i).kind j = h.kind j := by
  rw [Heap.retain, Heap.recount, Heap.kind_modify]
  exact fun _ => rfl

theorem Heap.kind_keep (h : Heap κ) (i r j : Nat) : (h.keep i r).kind j = h.kind j := by
  rw [Heap.keep, Heap.kind_modify, Heap.kind_retain]
  exact fun _ => rfl

theorem Heap.refs_keep {h : Heap κ} {i r : Nat} (hi : h.count i ≠ 0) (j : Nat) :
    (h.keep i r).refs j = if j = i then r :: h.refs i else h.refs j := by
  have hrefs : ∀ j, (h.retain r).refs j = h.refs j := h.refs_recount r _
  split
  · next heq =>
    obtain ⟨o, ho, -, -⟩ := Heap.object_of_count hi
    have hi' : i < (h.retain r).objects.length := by
      rw [Heap.retain, Heap.recount, Heap.modify, List.length_modify]
      exact (List.getElem?_eq_some_iff.mp ho).1
    obtain ⟨o', ho'⟩ : ∃ o', (h.retain r).objects[i]? = some o' :=
      ⟨_, List.getElem?_eq_getElem hi'⟩
    have hsame : o'.refs = h.refs i := by
      rw [← hrefs i, Heap.refs, ho']
      rfl
    rw [heq, Heap.keep, Heap.refs_modify ho', hsame]
  · next hne => rw [Heap.keep, Heap.refs_modify_of_ne hne, hrefs]

theorem Heap.count_keep {h : Heap κ} {i r : Nat} (j : Nat) :
    (h.keep i r).count j = (h.retain r).count j := by
  by_cases hj : j = i
  · rw [hj]
    cases ho : (h.retain r).objects[i]? with
    | none => simp [Heap.keep, Heap.count, Heap.modify, ho]
    | some o => rw [Heap.keep, Heap.count_modify ho, Heap.count, ho]; rfl
  · exact Heap.count_modify_of_ne hj

/-- An object that is there retains another one. -/
theorem Sound.keep {h : Heap κ} {held : List Nat} (hs : Sound h held []) {i r : Nat}
    (hi : h.count i ≠ 0) (hr : h.count r ≠ 0) : Sound (h.keep i r) held [] := by
  have hretain := hs.retain hr
  have hi' : (h.retain r).count i ≠ 0 := by
    rw [Heap.retain, Heap.count_recount hr]
    split
    · exact Nat.succ_ne_zero _
    · exact hi
  obtain ⟨o, ho, -, -⟩ := Heap.object_of_count hi'
  constructor
  · intro j
    have hbalanced := hretain.balanced j
    have hpointed :=
      Heap.count_pointed_modify (f := fun o => { o with refs := r :: o.refs }) ho j
    rw [Heap.count_keep, Heap.keep]
    rw [List.count_cons] at hbalanced hpointed
    omega
  · intro j hzero
    rw [Heap.count_keep] at hzero
    have hj : j ≠ i := fun heq => hi' (heq ▸ hzero)
    rw [Heap.refs_keep hi, if_neg hj]
    exact (h.refs_recount r _ j).symm.trans (hretain.empty j hzero)
  · intro j
    have hlength : (h.keep i r).objects.length = (h.retain r).objects.length :=
      List.length_modify ..
    rw [Heap.count_keep, hlength]
    exact hretain.gone_iff j
  · exact hretain.once

theorem Heap.object_alloc (h : Heap κ) (kind : κ) (j : Nat) :
    (h.alloc kind).objects[j]? = if j = h.objects.length then some ⟨kind, [], 1⟩
      else h.objects[j]? := by
  rw [Heap.alloc]
  split
  · next heq => rw [heq, List.getElem?_concat_length]
  · next hne =>
    rcases Nat.lt_or_gt_of_ne hne with hlt | hlt
    · rw [List.getElem?_append_left hlt]
    · rw [List.getElem?_eq_none (by rw [List.length_append, List.length_singleton]; omega),
        List.getElem?_eq_none (Nat.le_of_lt hlt)]

theorem Heap.count_alloc (h : Heap κ) (kind : κ) (j : Nat) :
    (h.alloc kind).count j = if j = h.objects.length then 1 else h.count j := by
  rw [Heap.count, Heap.object_alloc]
  split <;> rfl

theorem Heap.kind_alloc (h : Heap κ) (kind : κ) (j : Nat) :
    (h.alloc kind).kind j = if j = h.objects.length then some kind else h.kind j := by
  rw [Heap.kind, Heap.object_alloc]
  split <;> rfl

theorem Heap.refs_alloc (h : Heap κ) (kind : κ) (j : Nat) : (h.alloc kind).refs j = h.refs j := by
  rw [Heap.refs, Heap.object_alloc, Heap.refs]
  split
  · next heq =>
    rw [heq, List.getElem?_eq_none (Nat.le_refl _)]
    rfl
  · rfl

/-- There is one object more. -/
theorem Sound.alloc {h : Heap κ} {held : List Nat} (hs : Sound h held []) (kind : κ) :
    Sound (h.alloc kind) (h.objects.length :: held) [] := by
  have hnew : h.count h.objects.length = 0 := by
    rw [Heap.count, List.getElem?_eq_none (Nat.le_refl _)]
    rfl
  have hpointed : (h.alloc kind).pointed = h.pointed := by
    simp only [Heap.pointed, Heap.alloc, List.flatMap_append, List.flatMap_cons, List.flatMap_nil,
      List.append_nil]
  constructor
  · intro j
    have hbalanced := hs.balanced j
    rw [hpointed, Heap.count_alloc, List.count_cons]
    by_cases hj : j = h.objects.length
    · rw [hj] at hbalanced ⊢
      simp only [if_true, beq_self_eq_true]
      omega
    · have hbeq : (h.objects.length == j) = false := beq_false_of_ne (Ne.symm hj)
      rw [if_neg hj, hbeq, if_neg Bool.false_ne_true]
      omega
  · intro j hzero
    rw [Heap.count_alloc] at hzero
    split at hzero
    · cases hzero
    · rw [Heap.refs_alloc]
      exact hs.empty j hzero
  · intro j
    have hlength : (h.alloc kind).objects.length = h.objects.length + 1 :=
      List.length_append
    rw [Heap.count_alloc, hlength]
    show j ∈ h.gone ↔ _
    rw [hs.gone_iff]
    by_cases hj : j = h.objects.length
    · simp [hj]
    · simp only [if_neg hj]
      omega
  · exact hs.once

/-- Releases leave an object what it is, with what it retains or deallocated. -/
structure Shrinks (h h' : Heap κ) : Prop where
  length : h'.objects.length = h.objects.length
  kind : ∀ i, h'.kind i = h.kind i
  alive : ∀ i, h'.count i ≠ 0 → h.count i ≠ 0 ∧ h'.refs i = h.refs i

theorem Shrinks.refl (h : Heap κ) : Shrinks h h := ⟨rfl, fun _ => rfl, fun _ hi => ⟨hi, rfl⟩⟩

theorem Shrinks.trans {h h' h'' : Heap κ} (first : Shrinks h h') (second : Shrinks h' h'') :
    Shrinks h h'' where
  length := second.length.trans first.length
  kind i := (second.kind i).trans (first.kind i)
  alive i hi := by
    obtain ⟨hi', hrefs'⟩ := second.alive i hi
    obtain ⟨hi, hrefs⟩ := first.alive i hi'
    exact ⟨hi, hrefs'.trans hrefs⟩

theorem Shrinks.releaseOnce (h : Heap κ) (i : Nat) : Shrinks h (h.releaseOnce i).1 := by
  rw [Heap.releaseOnce]
  by_cases hzero : h.count i = 0
  · rw [if_pos hzero]
    exact Shrinks.refl h
  · rw [if_neg hzero]
    obtain ⟨o, ho, -, -⟩ := Heap.object_of_count hzero
    split
    · refine ⟨List.length_modify .., Heap.kind_modify fun _ => rfl, fun j hj => ?_⟩
      have hne : j ≠ i := by
        rintro rfl
        exact hj (Heap.count_modify ho)
      exact ⟨(Heap.count_modify_of_ne hne).symm.trans_ne hj, Heap.refs_modify_of_ne hne⟩
    · refine ⟨List.length_modify .., Heap.kind_modify fun _ => rfl, fun j hj => ?_⟩
      refine ⟨?_, h.refs_recount i _ j⟩
      by_cases hne : j = i
      · rw [hne]
        exact hzero
      · exact (Heap.count_modify_of_ne hne).symm.trans_ne hj

theorem Shrinks.releases (h : Heap κ) (pending : List Nat) : Shrinks h (h.releases pending) :=
  Heap.releases_induction (P := fun h' _ => Shrinks h h')
    (fun h' i _ hp => hp.trans (Shrinks.releaseOnce h' i)) (Shrinks.refl h)

/-- **An object is there** exactly while the client or another object refers to it. -/
theorem Sound.alive_iff {h : Heap κ} {held : List Nat} (hs : Sound h held []) (i : Nat) :
    h.count i ≠ 0 ↔ i ∈ held ∨ ∃ j, i ∈ h.refs j := by
  have hbalanced := hs.balanced i
  rw [← Heap.mem_pointed, ← List.count_pos_iff, ← List.count_pos_iff]
  rw [List.count_nil] at hbalanced
  omega

/-- Only what is there retains something. -/
theorem Sound.alive_of_mem {h : Heap κ} {held pending : List Nat} (hs : Sound h held pending)
    {i j : Nat} (hj : j ∈ h.refs i) : h.count i ≠ 0 := fun hzero => by
  rw [hs.empty i hzero] at hj
  cases hj

/-- Each of these objects is retained by one of them. -/
structure SelfKept (h : Heap κ) (S : Set Nat) : Prop where
  alive : ∀ i ∈ S, h.count i ≠ 0
  kept : ∀ i ∈ S, ∃ j ∈ S, i ∈ h.refs j

/-- **A circle** stays whatever is released. -/
theorem SelfKept.releases {h : Heap κ} {S : Set Nat} {held pending : List Nat}
    (hkept : SelfKept h S) (hs : Sound h held pending) : SelfKept (h.releases pending) S := by
  refine (Heap.releases_induction (P := fun h pending => Sound h held pending ∧ SelfKept h S)
    (fun h i pending hp => ⟨hp.1.releaseOnce, ?_⟩) ⟨hs, hkept⟩).2
  obtain ⟨hs, halive, hkept⟩ := hp
  -- one of them that is released is retained by another one still
  have hmore : i ∈ S → 1 < h.count i := by
    intro hi
    obtain ⟨j, -, hj⟩ := hkept i hi
    have hpointed := List.count_pos_iff.mpr (Heap.mem_pointed.mpr ⟨j, hj⟩)
    have hbalanced := hs.balanced i
    rw [List.count_cons_self] at hbalanced
    omega
  have hcount : ∀ j ∈ S,
      (h.releaseOnce i).1.count j ≠ 0 ∧ (h.releaseOnce i).1.refs j = h.refs j := by
    intro j hj
    rw [Heap.releaseOnce]
    by_cases hij : j = i
    · have hlt := hmore (hij ▸ hj)
      rw [if_neg (by omega), if_neg (by omega), Heap.count_recount (by omega), if_pos hij]
      exact ⟨by omega, h.refs_recount i _ j⟩
    · split
      · exact ⟨halive j hj, rfl⟩
      · split
        · exact ⟨(Heap.count_modify_of_ne hij).trans_ne (halive j hj),
            Heap.refs_modify_of_ne hij⟩
        · exact ⟨(Heap.count_modify_of_ne hij).trans_ne (halive j hj),
            Heap.refs_modify_of_ne hij⟩
  refine ⟨fun j hj => (hcount j hj).1, fun j hj => ?_⟩
  obtain ⟨k, hk, hkj⟩ := hkept j hj
  exact ⟨k, hk, (hcount k hk).2 ▸ hkj⟩

theorem SelfKept.release {h : Heap κ} {S : Set Nat} {held : List Nat} (hkept : SelfKept h S)
    (hs : Sound h held []) {i : Nat} (hi : i ∈ held) : SelfKept (h.release i) S :=
  hkept.releases (hs.pend hi)

end Lib.RetainCount
